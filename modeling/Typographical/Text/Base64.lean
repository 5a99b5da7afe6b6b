/-!
# Bytes written as letters

Three bytes are written as four signs, each of which stands for six bits. The
last signs are filled up to four by equality signs if the bytes do not come in
threes. Line feeds and carriage returns count for nothing, and the bits that are
left over at the end may be anything.
-/

namespace Typographical

namespace Base64

def value? (c : Char) : Option Nat :=
  if c.isUpper then some (c.toNat - 'A'.toNat)
  else if c.isLower then some (c.toNat - 'a'.toNat + 26)
  else if c.isDigit then some (c.toNat - '0'.toNat + 52)
  else if c = '+' then some 62
  else if c = '/' then some 63
  else none

/-- The bytes that a list of values stands for, four of which make three bytes. -/
def bytes : List Nat → List UInt8
  | a :: b :: c :: d :: rest =>
    .ofNat (a * 4 + b / 16) :: .ofNat (b % 16 * 16 + c / 4) :: .ofNat (c % 4 * 64 + d) :: bytes rest
  | [a, b, c] => [.ofNat (a * 4 + b / 16), .ofNat (b % 16 * 16 + c / 4)]
  | [a, b] => [.ofNat (a * 4 + b / 16)]
  | _ => []

def decode? (text : List Char) : Option (List UInt8) :=
  let signs := text.filter (fun c => c ≠ '\n' && c ≠ '\r')
  let body := signs.takeWhile (· ≠ '=')
  let fill := signs.drop body.length
  if fill.all (· = '=') && fill.length ≤ 2 && signs.length % 4 = 0 then
    (body.mapM value?).map bytes
  else none

end Base64

end Typographical
