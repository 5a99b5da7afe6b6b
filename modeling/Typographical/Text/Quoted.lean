import Typographical.Text.Shown

/-!
# Quoted text

Text is quoted for messages: quotes and backslashes are escaped, and so is
whatever would not show, such as control characters, odd spaces, and characters
that only direct the layout.
-/

namespace Typographical

namespace Quoted

/-- The letters that stand for control characters behind a backslash. -/
def letter? : Char → Option Char
  | '\x07' => some 'a'
  | '\x08' => some 'b'
  | '\x0c' => some 'f'
  | '\n' => some 'n'
  | '\r' => some 'r'
  | '\t' => some 't'
  | '\x0b' => some 'v'
  | _ => none

def hex (width n : Nat) : List Char :=
  let digits := Nat.toDigits 16 n
  List.replicate (width - digits.length) '0' ++ digits

def encodeChar (c : Char) : List Char :=
  if c = '"' || c = '\\' then ['\\', c]
  else if Text.isShown c then [c]
  else
    match letter? c with
    | some a => ['\\', a]
    | none =>
      if c.toNat < 0x80 then '\\' :: 'x' :: hex 2 c.toNat
      else if c.toNat < 0x10000 then '\\' :: 'u' :: hex 4 c.toNat
      else '\\' :: 'U' :: hex 8 c.toNat

def encode (text : String) : String :=
  "\"" ++ String.ofList (text.toList.flatMap encodeChar) ++ "\""

end Quoted

end Typographical
