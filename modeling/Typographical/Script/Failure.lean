import Typographical.Deduction
import Typographical.Grammar.Parser

/-!
# Failing scripts

A script fails at a step, or because its last theorem is not the one announced.
What a script is expected to fail with is named by a flaw: one of the kinds of
failing rules, a text that cannot be read, or an expectation that is not met.

A failure is made in layers: a rule complains about a formula, the step about the
rule, the script about the step, and some layers are made from two failures at
once. These layers are a tree whose leaves include the flaws that scripts can
announce. A flaw is found in a failure if it is a leaf anywhere in the tree.
-/

namespace Typographical

namespace Script

inductive ArgumentError where
  | references (expected found : Nat)
  | missingFormula
  | missingVariable
  | missingTerm
  | unknownSide (name : String)
  deriving DecidableEq

def ArgumentError.message : ArgumentError → String
  | references expected found =>
    s!"expected {expected} theorem reference(s), found {found}"
  | missingFormula => "missing formula"
  | missingVariable => "missing variable"
  | missingTerm => "missing term"
  | unknownSide name => "unknown side \"" ++ name ++ "\""

inductive StepFailure where
  | unknownRule (name : String)
  | arguments (e : ArgumentError)
  | unreadable (e : SyntaxError)
  | malformed (m : Malformation)
  | invalidVariable (e : Variable.Invalid)
  | refused (e : Typographical.Failure)
  | badExpectation (e : ParseError)
  | unmet (derived expected : Formula)

def StepFailure.message : StepFailure → String
  | unknownRule name => "unknown rule \"" ++ name ++ "\""
  | arguments e => "invalid arguments: " ++ e.message
  | unreadable e => "syntax error: " ++ e.text
  | malformed m => m.message
  | invalidVariable e => e.message
  | refused e => e.message
  | badExpectation e => "invalid expectation: " ++ e.message
  | unmet derived expected => s!"expectation failed: derived {derived}, not {expected}"

inductive Failure where
  | step (index : Nat) (rule : String) (cause : StepFailure)
  | badGoal (e : ParseError)
  | empty (e : Typographical.Failure)
  | unproved (proved expected : Formula)

def Failure.message : Failure → String
  | step index rule cause => "step " ++ toString index ++ " (" ++ rule ++ "): " ++ cause.message
  | badGoal e => "invalid theorem: " ++ e.message
  | empty e => e.message
  | unproved proved expected => s!"expectation failed: proved {proved}, not {expected}"

/-- A way to fail that a script can announce. -/
inductive Flaw where
  | unreadable
  | unmet
  | rule (k : Kind)
  deriving DecidableEq

def Flaw.label : Flaw → String
  | unreadable => "syntax error"
  | unmet => "expectation failed"
  | rule k => k.label

/-- The flaw with a given name. The case of letters matters for the two flaws
that are not those of a rule. -/
def Flaw.ofName? (name : String) : Option Flaw :=
  if name = "syntax" then some .unreadable
  else if name = "expectation" then some .unmet
  else (Kind.ofName? name).map .rule

/-- A failure with what it was made from: a flaw with a name or without one, a
complaint about a text, another failure, or two other failures. -/
inductive Layers where
  | flaw (k : Flaw)
  | unnamed (label : String)
  | complaint (e : SyntaxError)
  | around (inner : Layers)
  | joined (first second : Layers)

namespace Layers

/-- Whether a flaw is found anywhere in a failure. -/
def includes (k : Flaw) : Layers → Bool
  | flaw k' => k' = k
  | unnamed _ => false
  | complaint _ => false
  | around inner => inner.includes k
  | joined first second => first.includes k || second.includes k

/-- The first complaint about a text that is found in a failure. -/
def complaint? : Layers → Option SyntaxError
  | flaw _ => none
  | unnamed _ => none
  | complaint e => some e
  | around inner => inner.complaint?
  | joined first second => first.complaint? <|> second.complaint?

end Layers

def malformedLayers : Layers := .around (.flaw (.rule .malformed))

def parseLayers : ParseError → Layers
  | .unreadable e => .complaint e
  | .malformed _ _ => malformedLayers

/-- The layers of a rule that does not apply. The flaws of a deduction itself have
no name. -/
def refusalLayers (e : Typographical.Failure) : Layers :=
  match e.cause.kind with
  | some k => .around (.flaw (.rule k))
  | none => .unnamed e.cause.message

/-- The layers of a failing step. That an argument cannot be read is said by a
flaw of its own, beside the complaint about the text. -/
def StepFailure.layers : StepFailure → Layers
  | unknownRule _ => .around (.unnamed "unknown rule")
  | arguments _ => .around (.unnamed "invalid arguments")
  | unreadable e => .joined (.flaw .unreadable) (.complaint e)
  | malformed _ => malformedLayers
  | invalidVariable _ => .around (.unnamed "invalid variable")
  | refused e => refusalLayers e
  | badExpectation e => .around (parseLayers e)
  | unmet _ _ => .around (.flaw .unmet)

def Failure.layers : Failure → Layers
  | step _ _ cause => .around cause.layers
  | badGoal e => .around (parseLayers e)
  | empty e => refusalLayers e
  | unproved _ _ => .around (.flaw .unmet)

/-- Why the outcome of a script is not the intended one. -/
inductive Objection where
  | failed (f : Failure)
  | unknownFlaw (name : String)
  | unexpectedSuccess (name : String)
  | otherFlaw (name : String) (f : Failure)

def Objection.message : Objection → String
  | failed f => f.message
  | unknownFlaw name => "unknown error kind \"" ++ name ++ "\""
  | unexpectedSuccess name => "unexpected success: expected " ++ name ++ " error"
  | otherFlaw name f => "expected " ++ name ++ " error, got: " ++ f.message

end Script

end Typographical
