import Typographical.Formula.WellFormed
import Typographical.Grammar.Lexeme
import Typographical.Grammar.Outline

/-!
# Reading terms and formulas

Terms and formulas are read from the front of a list of tokens, deciding by the
next token alone. Whatever does not fit is reported at the first token that
cannot be part of any term or formula beginning like this. Every level of
nesting takes a token, so as many levels are allowed for as there are tokens.

A formula that can be read is then checked for being well quantified.
-/

namespace Typographical

namespace Grammar

inductive Complaint where
  | connective
  | closingBracket
  | name
  | invalidName
  | colon
  | equals
  | unexpectedEnd
  | term
  | operator
  | closingParenthesis
  | textAfterFormula
  | textAfterTerm
  deriving DecidableEq

def Complaint.message : Complaint → String
  | connective => "expected logical connective"
  | closingBracket => "expected ']'"
  | name => "expected variable"
  | invalidName => "invalid variable"
  | colon => "expected ':'"
  | equals => "expected '='"
  | unexpectedEnd => "unexpected end of input"
  | term => "expected term"
  | operator => "expected '+' or '*'"
  | closingParenthesis => "expected ')'"
  | textAfterFormula => "unexpected text after formula"
  | textAfterTerm => "unexpected text after term"

abbrev Input := List (Token Lexeme)

/-- What was read, the span of the last token of it, and the tokens that follow. -/
structure Reading (α : Type) where
  value : α
  last : Span
  rest : Input

variable (file : SourceFile)

/-- The next token; behind the last one the input has ended. -/
def lookahead : Input → Token Lexeme
  | [] => ⟨.endOfInput, Span.ofStart file.length 0⟩
  | t :: _ => t

def complain (input : Input) (c : Complaint) : SyntaxError :=
  ⟨file, (lookahead file input).span, c.message⟩

def expect (kind : Lexeme) (c : Complaint) : Input → Except SyntaxError (Reading Unit)
  | [] => .error (complain file [] c)
  | t :: rest =>
    if t.kind = kind then .ok ⟨(), t.span, rest⟩ else .error (complain file (t :: rest) c)

def nameAt (span : Span) : Except SyntaxError Variable :=
  match Variable.ofChars? (file.slice span) with
  | some v => .ok v
  | none => .error ⟨file, span, Complaint.invalidName.message⟩

def operator (input : Input) : Except SyntaxError (Reading (Term → Term → Term)) :=
  match lookahead file input with
  | ⟨.plus, s⟩ => .ok ⟨.sum, s, input.tail⟩
  | ⟨.times, s⟩ => .ok ⟨.product, s, input.tail⟩
  | _ => .error (complain file input .operator)

def connective (input : Input) : Except SyntaxError (Reading Connective) :=
  match lookahead file input with
  | ⟨.and, s⟩ => .ok ⟨.and, s, input.tail⟩
  | ⟨.or, s⟩ => .ok ⟨.or, s, input.tail⟩
  | ⟨.implies, s⟩ => .ok ⟨.implies, s, input.tail⟩
  | _ => .error (complain file input .connective)

/-- Read a term with at most `depth` levels of nesting. -/
def readTerm : Nat → Input → Except SyntaxError (Reading Term)
  | 0, input => .error (complain file input .term)
  | depth + 1, input =>
    match lookahead file input with
    | ⟨.zero, s⟩ => .ok ⟨.zero, s, input.tail⟩
    | ⟨.successor, _⟩ => do
      let t ← readTerm depth input.tail
      .ok ⟨.succ t.value, t.last, t.rest⟩
    | ⟨.name, s⟩ => do
      let v ← nameAt file s
      .ok ⟨.var v, s, input.tail⟩
    | ⟨.leftParenthesis, _⟩ => do
      let l ← readTerm depth input.tail
      let op ← operator file l.rest
      let r ← readTerm depth op.rest
      let close ← expect file .rightParenthesis .closingParenthesis r.rest
      .ok ⟨op.value l.value r.value, close.last, close.rest⟩
    | ⟨.endOfInput, _⟩ => .error (complain file input .unexpectedEnd)
    | _ => .error (complain file input .term)

/-- Read an equality, which begins at `start`. -/
def readEquality (start : Span) (input : Input) :
    Except SyntaxError (Reading (Formula × Outline)) := do
  let l ← readTerm file input.length input
  let eq ← expect file .equals .equals l.rest
  let r ← readTerm file eq.rest.length eq.rest
  .ok ⟨(.equality l.value r.value, .leaf (start.join r.last)), r.last, r.rest⟩

/-- Take the variable of a quantifier and the colon behind it. -/
def readQuantified (input : Input) : Except SyntaxError (Reading Variable) := do
  let name ← expect file .name .name input
  let colon ← expect file .colon .colon name.rest
  let v ← nameAt file name.last
  .ok ⟨v, colon.last, colon.rest⟩

def readFormula : Nat → Input → Except SyntaxError (Reading (Formula × Outline))
  | 0, input => .error (complain file input .term)
  | depth + 1, input =>
    match lookahead file input with
    | ⟨.leftBracket, s⟩ => do
      let l ← readFormula depth input.tail
      let op ← connective file l.rest
      let r ← readFormula depth op.rest
      let close ← expect file .rightBracket .closingBracket r.rest
      .ok ⟨(.binary op.value l.value.1 r.value.1,
        .binary (s.join close.last) l.value.2 r.value.2), close.last, close.rest⟩
    | ⟨.tilde, s⟩ => do
      let f ← readFormula depth input.tail
      .ok ⟨(.neg f.value.1, .unary (s.join f.last) f.value.2), f.last, f.rest⟩
    | ⟨.forAll, s⟩ => do
      let v ← readQuantified file input.tail
      let f ← readFormula depth v.rest
      .ok ⟨(.forAll v.value f.value.1, .unary (s.join f.last) f.value.2), f.last, f.rest⟩
    | ⟨.thereIs, s⟩ => do
      let v ← readQuantified file input.tail
      let f ← readFormula depth v.rest
      .ok ⟨(.thereIs v.value f.value.1, .unary (s.join f.last) f.value.2), f.last, f.rest⟩
    | ⟨_, s⟩ => readEquality file s input

/-- Accept what was read if nothing follows it. -/
def complete {α : Type} (c : Complaint) (r : Reading α) : Except SyntaxError α :=
  if (lookahead file r.rest).kind = .endOfInput then .ok r.value
  else .error (complain file r.rest c)

def term : Except SyntaxError Term := do
  let input ← tokens file
  let t ← readTerm file input.length input
  complete file .textAfterTerm t

/-- Read a file that holds exactly one formula, well quantified or not. -/
def outlinedFormula : Except SyntaxError (Formula × Outline) := do
  let input ← tokens file
  let f ← readFormula file input.length input
  complete file .textAfterFormula f

end Grammar

inductive ParseError where
  | unreadable (e : SyntaxError)
  | malformed (m : Malformation) (map : SourceMap Position)

namespace ParseError

def message : ParseError → String
  | unreadable e => e.text
  | malformed m _ => m.message

/-- The error as a complaint about a span of the text. For a malformed formula
this is the span of the very occurrence that is malformed. -/
def located : ParseError → SyntaxError
  | unreadable e => e
  | malformed m map => map.syntaxError m.position m.reason

end ParseError

/-- Read a file that holds exactly one well-quantified formula. -/
def Formula.read (file : SourceFile) : Except ParseError (Formula × Outline) :=
  match Grammar.outlinedFormula file with
  | .error e => .error (.unreadable e)
  | .ok (f, outline) =>
    match f.checkWellFormed with
    | .error m => .error (.malformed m (outline.sourceMap file))
    | .ok () => .ok (f, outline)

def Formula.parse (text : String) : Except ParseError Formula :=
  (Formula.read (.ofString "formula" text)).map Prod.fst

def Term.parse (text : String) : Except SyntaxError Term :=
  Grammar.term (.ofString "term" text)

end Typographical
