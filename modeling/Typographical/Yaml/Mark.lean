/-!
# Places in a text

A mark counts characters, lines and columns from zero. A carriage return
followed by a line feed is one line break; the other line breaks are single
characters.
-/

namespace Typographical

namespace Yaml

structure Mark where
  index : Nat
  line : Nat
  column : Nat
  deriving DecidableEq

namespace Mark

def origin : Mark := ⟨0, 0, 0⟩

def right (m : Mark) : Mark := ⟨m.index + 1, m.line, m.column + 1⟩

/-- The next line, behind a line break of `width` characters. -/
def below (m : Mark) (width : Nat) : Mark := ⟨m.index + width, m.line + 1, 0⟩

end Mark

def isBlank (c : Char) : Bool := c = ' ' || c = '\t'

def isBreak (c : Char) : Bool :=
  c = '\n' || c = '\r' || c = '\u0085' || c = '\u2028' || c = '\u2029'

/-- Line breaks that take more than one byte. -/
def isWideBreak (c : Char) : Bool := isBreak c && 0x7f < c.toNat

/-- Whether a word ends before the next character, or because there is none. -/
def isGap : Option Char → Bool
  | none => true
  | some c => isBlank c || isBreak c

/-- What a line break contributes to a text: a line feed, unless it is one of
the two separators that keep their identity. -/
def normalBreak (c : Char) : Char :=
  if c = '\u2028' || c = '\u2029' then c else '\n'

def isWordChar (c : Char) : Bool := c.isAlphanum || c = '-' || c = '_'

/-- The mark of the byte order, which may stand in front of a text. -/
def orderMark : Char := '\ufeff'

def isAllowed (a : Char) : Bool :=
  a = '\t' || a = '\n' || a = '\r' || ' ' ≤ a && a ≤ '~' || a = '\u0085' ||
    '\u00a0' ≤ a && a ≠ '\ufffe' && a ≠ '\uffff'

end Yaml

end Typographical
