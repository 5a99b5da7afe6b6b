import Typographical.Yaml.Scalar

/-!
# Numbers

Integers are written in base ten, or in base two, eight or sixteen behind a
letter; a leading zero alone also means base eight. Decimal fractions are read
as the nearest binary number with 53 significant bits, ties going to the even
one. All arithmetic is exact until that rounding.
-/

namespace Typographical

namespace Yaml

/-- The first number that a signed 64-bit word cannot hold. -/
def signedBound : Nat := 0x8000000000000000

def digits? (base : Nat) (ds : List Char) : Option Nat :=
  if ds.isEmpty then none
  else ds.foldlM (fun n a => ((hexValue? a).filter (· < base)).map (n * base + ·)) 0

def unsigned? : List Char → Option Nat
  | ['0'] => some 0
  | '0' :: a :: b :: rest =>
    if a = 'b' || a = 'B' then digits? 2 (b :: rest)
    else if a = 'o' || a = 'O' then digits? 8 (b :: rest)
    else if a = 'x' || a = 'X' then digits? 16 (b :: rest)
    else digits? 8 (a :: b :: rest)
  | '0' :: ds => digits? 8 ds
  | ds => digits? 10 ds

/-- An integer with an optional sign that fits into a signed 64-bit word, where
`read` reads what follows the sign. -/
def signed? (read : List Char → Option Nat) : List Char → Option Int
  | '-' :: ds => ((read ds).filter (· ≤ signedBound)).map (fun n => -(n : Int))
  | '+' :: ds => ((read ds).filter (· < signedBound)).map Int.ofNat
  | ds => ((read ds).filter (· < signedBound)).map Int.ofNat

/-- An integer that fits into a signed word, or one without sign that fits into
an unsigned word. -/
def wordInteger? (read : List Char → Option Nat) (ds : List Char) : Option Int :=
  (signed? read ds).or (((read ds).filter (· < UInt64.size)).map Int.ofNat)

/-- An integer whose sign stands behind the letter of its base. -/
def lateSigned? : List Char → Option Int
  | '0' :: 'b' :: ds => wordInteger? (digits? 2) ds
  | '-' :: '0' :: 'b' :: ds => signed? (digits? 2) ('-' :: ds)
  | '0' :: 'o' :: ds => wordInteger? (digits? 8) ds
  | '-' :: '0' :: 'o' :: ds => signed? (digits? 8) ('-' :: ds)
  | _ => none

/-- A decimal fraction: an integer times a power of ten. -/
structure Decimal where
  negative : Bool
  digits : Nat
  exponent : Int
  deriving DecidableEq

namespace Decimal

/-- The exponent behind the digits, if nothing else follows. -/
def exponent? : List Char → Option Int
  | [] => some 0
  | a :: ds =>
    if a = 'e' || a = 'E' then
      match ds with
      | '-' :: ds => (digits? 10 ds).map (fun n => -(n : Int))
      | '+' :: ds => (digits? 10 ds).map Int.ofNat
      | ds => (digits? 10 ds).map Int.ofNat
    else none

def magnitude? (negative : Bool) (ds : List Char) : Option Decimal :=
  let whole := ds.takeWhile Char.isDigit
  let rest := ds.drop whole.length
  let (fraction, rest) :=
    match rest with
    | '.' :: more => (more.takeWhile Char.isDigit, more.dropWhile Char.isDigit)
    | rest => ([], rest)
  match digits? 10 (whole ++ fraction), exponent? rest with
  | some n, some e => some ⟨negative, n, e - fraction.length⟩
  | _, _ => none

def read? : List Char → Option Decimal
  | '-' :: ds => magnitude? true ds
  | '+' :: ds => magnitude? false ds
  | ds => magnitude? false ds

end Decimal

/-- A binary number: an integer times a power of two, or none of that kind. -/
inductive Double where
  | notANumber
  | infinite (negative : Bool)
  | finite (negative : Bool) (significand : Nat) (exponent : Int)
  deriving DecidableEq

namespace Double

/-- The first number with more than 53 bits. -/
def significandBound : Nat := 0x20000000000000

/-- Numerator and denominator of a fraction divided by a power of two. -/
def scaled (n d : Nat) (e : Int) : Nat × Nat :=
  if 0 ≤ e then (n, d * Nat.pow 2 e.toNat) else (n * Nat.pow 2 (-e).toNat, d)

/-- The nearest integer to a fraction, the even one of two. -/
def roundDiv (n d : Nat) : Nat :=
  let q := n / d
  let r := n % d
  if d < 2 * r || 2 * r = d && q % 2 = 1 then q + 1 else q

/-- The nearest number with 53 significant bits to a positive fraction, and
with fewer close to zero; none if it is too large. -/
def nearest? (negative : Bool) (n d : Nat) : Option Double :=
  let e : Int := max (-1074) (Nat.log2 n - Nat.log2 d - 53 : Int)
  let (a, b) := scaled n d e
  let e := if a / b < significandBound then e else e + 1
  let (a, b) := scaled n d e
  let q := roundDiv a b
  if 971 < e || e = 971 && significandBound ≤ q then none else some (.finite negative q e)

/-- The nearest number to a decimal fraction. Those that are too large or too
small by far are sorted out first. -/
def ofDecimal? (x : Decimal) : Option Double :=
  let places : Int := (Nat.toDigits 10 x.digits).length + x.exponent
  if x.digits = 0 || places < -400 then some (.finite x.negative 0 0)
  else if 400 < places then none
  else if 0 ≤ x.exponent then nearest? x.negative (x.digits * Nat.pow 10 x.exponent.toNat) 1
  else nearest? x.negative x.digits (Nat.pow 10 (-x.exponent).toNat)

def ofInt (n : Int) : Double :=
  (ofDecimal? ⟨n < 0, n.natAbs, 0⟩).getD (.infinite (n < 0))

/-- The part of a number before the point. -/
def wholePart (significand : Nat) (exponent : Int) : Nat :=
  if 0 ≤ exponent then significand * Nat.pow 2 exponent.toNat
  else significand / Nat.pow 2 (-exponent).toNat

/-- The word that a number is cut down to. Numbers below zero count down from
the top of the word range. What a signed word cannot hold becomes its least
value, and so does the first number beyond the word range; larger ones give no
word. -/
def word? : Double → Option UInt64
  | notANumber => none
  | infinite negative => if negative then some (.ofNat signedBound) else none
  | finite negative significand exponent =>
    let n := wholePart significand exponent
    if negative then
      some (if n ≤ signedBound then 0 - .ofNat n else .ofNat signedBound)
    else if n < UInt64.size then some (.ofNat n)
    else if n = UInt64.size then some (.ofNat signedBound)
    else none

end Double

end Yaml

end Typographical
