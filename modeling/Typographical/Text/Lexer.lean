import Typographical.Text.Scanner
import Typographical.Text.Source

/-!
# Lexers

A lexer cuts a list of items into tokens. Its rules are tried in order, and the
first one whose scanner matches gives the token. The end of input is a token of
its own if a rule matches there, so the index of a lexer moves one place past
the end once that token has been taken. A lexer looks one token ahead.

Collecting stops where no rule matches. It stops early, with the tokens found
so far lost, where a scanner overruns.
-/

namespace Typographical

universe u v

structure Token (κ : Type v) where
  kind : κ
  span : Span
  deriving DecidableEq

structure LexRule (α : Type u) (κ : Type v) where
  scanner : Scanner α
  kind : κ

namespace LexRule

variable {α : Type u} {κ : Type v}

/-- The kind and number of items of the first rule that matches, if any does;
none if a scanner overruns before. -/
def firstMatch : List (LexRule α κ) → List α → Option (Option (κ × Nat))
  | [], _ => some none
  | r :: rules, input =>
    match r.scanner input with
    | none => none
    | some 0 => firstMatch rules input
    | some n => some (some (r.kind, n))

end LexRule

/-- Items, the position reached in them, and the token found there if it has
been looked for. -/
structure Lexer (α : Type u) (κ : Type v) where
  items : List α
  rules : List (LexRule α κ)
  index : Nat := 0
  buffer : Option (Token κ) := none

namespace Lexer

variable {α : Type u} {κ : Type v}

def remaining (l : Lexer α κ) : Nat := l.items.length - l.index

/-- Look for a token at the index, unless one is buffered. A token never
extends past the last item. -/
def scan (l : Lexer α κ) : Option (Lexer α κ) :=
  if l.buffer.isNone ∧ l.index ≤ l.items.length then
    match LexRule.firstMatch l.rules (l.items.drop l.index) with
    | none => none
    | some none => some l
    | some (some (kind, n)) =>
      some { l with buffer := some ⟨kind, Span.ofStart l.index (min n l.remaining)⟩ }
  else some l

/-- Whether there is another token; none if a scanner overruns. -/
def hasNext (l : Lexer α κ) : Option (Bool × Lexer α κ) :=
  l.scan.map (fun l => (l.buffer.isSome, l))

/-- Take the buffered token; none if none is buffered. -/
def next (l : Lexer α κ) : Option (Token κ × Lexer α κ) :=
  l.buffer.map (fun t =>
    let index := if l.index = l.items.length then l.index + 1 else t.span.stop.toNat
    (t, { l with buffer := none, index := index }))

/-- What collecting has done: the tokens, unless a scanner overran, and the
lexer as it was left. -/
structure Collected (α : Type u) (κ : Type v) where
  tokens : Option (List (Token κ))
  lexer : Lexer α κ

def collectFrom : Nat → Lexer α κ → Collected α κ
  | 0, l => ⟨some [], l⟩
  | rounds + 1, l =>
    match l.scan with
    | none => ⟨none, l⟩
    | some l =>
      match l.next with
      | none => ⟨some [], l⟩
      | some (t, l) =>
        let rest := collectFrom rounds l
        ⟨rest.tokens.map (t :: ·), rest.lexer⟩

/-- Take all tokens. Each one moves the index on, which stops one place past
the end; a token that was buffered before comes on top. -/
def collect (l : Lexer α κ) : Collected α κ :=
  collectFrom (l.items.length + 2) l

end Lexer

end Typographical
