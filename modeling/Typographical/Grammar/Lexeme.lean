import Typographical.Text.Lexer

/-!
# Lexemes

The text of a term or formula is cut into symbols, variable names and blanks.
Blanks are spaces and tabs; they may stand anywhere between two lexemes and are
dropped. A name reaches as far as its primes do.
-/

namespace Typographical

namespace Grammar

inductive Lexeme where
  | endOfInput
  | blank
  | zero
  | successor
  | name
  | leftParenthesis
  | rightParenthesis
  | leftBracket
  | rightBracket
  | plus
  | times
  | equals
  | and
  | or
  | implies
  | tilde
  | forAll
  | thereIs
  | colon
  deriving DecidableEq

def blanks : Scanner Char := .many (.firstOf [.unit [' '], .unit ['\t']])

/-- A lowercase letter and the primes that follow it. -/
def variableName : Scanner Char := .andThen (.within 'a' 'z') (.many (.unit ['\'']))

/-- The lexical rules, in the order in which they are tried. -/
def rules : List (LexRule Char Lexeme) := [
  ⟨.unit ['0'], .zero⟩,
  ⟨.unit ['S'], .successor⟩,
  ⟨.unit ['('], .leftParenthesis⟩,
  ⟨.unit [')'], .rightParenthesis⟩,
  ⟨.unit ['['], .leftBracket⟩,
  ⟨.unit [']'], .rightBracket⟩,
  ⟨.unit ['+'], .plus⟩,
  ⟨.unit ['*'], .times⟩,
  ⟨.unit ['='], .equals⟩,
  ⟨.unit ['&'], .and⟩,
  ⟨.unit ['|'], .or⟩,
  ⟨.unit ['>'], .implies⟩,
  ⟨.unit ['~'], .tilde⟩,
  ⟨.unit ['A'], .forAll⟩,
  ⟨.unit ['E'], .thereIs⟩,
  ⟨.unit [':'], .colon⟩,
  ⟨blanks, .blank⟩,
  ⟨variableName, .name⟩,
  ⟨.endOfInput, .endOfInput⟩]

/-- The tokens of a file without blanks, the last one marking the end of input. -/
def tokens (file : SourceFile) : Except SyntaxError (List (Token Lexeme)) :=
  let collected := Lexer.collect ⟨file.contents, rules, 0, none⟩
  match collected.tokens, collected.lexer.remaining with
  | some ts, 0 => .ok (ts.filter (fun t => t.kind ≠ .blank))
  | _, _ =>
    .error ⟨file, Span.ofStart collected.lexer.index 1, "unknown text encountered"⟩

end Grammar

end Typographical
