import Typographical.Arithmetization
import Typographical.Axioms
import Typographical.Collection.ParallelMap
import Typographical.Collection.SortedSet
import Typographical.Collection.Stack
import Typographical.CommandLine
import Typographical.CommandLine.Command
import Typographical.CommandLine.Directory
import Typographical.CommandLine.Flags
import Typographical.CommandLine.Report
import Typographical.Deduction
import Typographical.Deduction.Failure
import Typographical.Deduction.Inference
import Typographical.Deduction.Rule
import Typographical.Formula
import Typographical.Formula.Alteration
import Typographical.Formula.Austere
import Typographical.Formula.Position
import Typographical.Formula.Substitution
import Typographical.Formula.Variables
import Typographical.Formula.WellFormed
import Typographical.Grammar.Lexeme
import Typographical.Grammar.Outline
import Typographical.Grammar.Parser
import Typographical.Main
import Typographical.Rendering
import Typographical.Script
import Typographical.Script.Check
import Typographical.Script.Document
import Typographical.Script.Failure
import Typographical.Term
import Typographical.Terminal.Escape
import Typographical.Terminal.Table
import Typographical.Text.Base64
import Typographical.Text.Lexer
import Typographical.Text.Quoted
import Typographical.Text.Replacement
import Typographical.Text.Scanner
import Typographical.Text.Shown
import Typographical.Text.Source
import Typographical.Text.SourceMap
import Typographical.Text.Utf8
import Typographical.Variable
import Typographical.Yaml.Comment
import Typographical.Yaml.Cursor
import Typographical.Yaml.Document
import Typographical.Yaml.Fault
import Typographical.Yaml.Mark
import Typographical.Yaml.Node
import Typographical.Yaml.Number
import Typographical.Yaml.Scalar
import Typographical.Yaml.Token
import Typographical.Yaml.Tokens
import Typographical.Yaml.Value
import Typographical.Proofs.SortedSet
import Typographical.Proofs.Variables
import Typographical.Proofs.Nameless
import Typographical.Proofs.Truth
import Typographical.Proofs.Substitution
import Typographical.Proofs.Outcome
import Typographical.Proofs.Deduction
import Typographical.Proofs.Alteration
import Typographical.Proofs.WellFormed
import Typographical.Proofs.Soundness
import Typographical.Proofs.Lexing
import Typographical.Proofs.Symbols
import Typographical.Proofs.Reading
import Typographical.Proofs.Acceptance
import Typographical.Proofs.Scopes
import Typographical.Proofs.Visibility
import Typographical.Proofs.Formation
import Typographical.Proofs.Variants
import Typographical.Proofs.Atomicity
import Typographical.Proofs.Alignment
import Typographical.Proofs.Languages
import Typographical.Proofs.Viability
import Typographical.Proofs.Pointer
import Typographical.Proofs.Complaints
import Typographical.Proofs.Derivability
import Typographical.Proofs.Calculation
import Typographical.Proofs.Malformation
import Typographical.Proofs.Readability
import Typographical.Proofs.Quantification
import Typographical.Proofs.Occurrences
import Typographical.Proofs.Reversal
import Typographical.Proofs.Layout
import Typographical.Proofs.Outlines
import Typographical.Proofs.Naming
import Typographical.Proofs.Verdicts
import Typographical.Proofs.Arithmetization
import Typographical.Proofs.Typesetting
import Typographical.Proofs.Queries
import Typographical.Proofs.TermSearch
import Typographical.Proofs.Bytes
import Typographical.Proofs.Tables
import Typographical.Proofs.Schedules
import Typographical.Proofs.Reports
import Typographical.Proofs.FiniteSets
import Typographical.Proofs.Scanning
import Typographical.Proofs.Tokens
import Typographical.Proofs.Lines
