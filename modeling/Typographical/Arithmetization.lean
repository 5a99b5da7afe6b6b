import Typographical.Text.Utf8

/-!
# Arithmetization

The bytes of a text are read as the digits, in base 256, of one number. A text
can be recovered from its number unless it is empty or begins with a zero byte,
which leaves no trace. Several texts are put on lines of their own first.
-/

namespace Typographical

namespace Arithmetization

/-- The number whose digits in base 256 are the given bytes. -/
def ofBytes (bytes : List UInt8) : Nat := bytes.foldl (fun n b => n * 256 + b.toNat) 0

/-- The digits of a number in base 256, without leading zeros. -/
def toBytes (n : Nat) : List UInt8 :=
  if h : n = 0 then [] else toBytes (n / 256) ++ [.ofNat (n % 256)]
termination_by n
decreasing_by omega

def encode (text : String) : Nat := ofBytes text.toUTF8.toList

/-- The number of several texts, one on each line. -/
def encodeAll (texts : List String) : Nat := encode ("\n".intercalate texts)

inductive Failure where
  | notGodelNumber
  deriving DecidableEq

def Failure.message : Failure → String
  | notGodelNumber => "not a godel number"

def decode (n : Int) : Except Failure String :=
  if n ≤ 0 then .error .notGodelNumber
  else
    match String.fromUTF8? (toBytes n.toNat).toByteArray with
    | some text => .ok text
    | none => .error .notGodelNumber

/-- Cut a text at its line feeds. -/
def lines : List Char → List (List Char)
  | [] => [[]]
  | c :: rest =>
    match lines rest with
    | [] => [[c]]
    | line :: more => if c = '\n' then [] :: line :: more else (c :: line) :: more

def decodeAll (n : Int) : Except Failure (List String) :=
  (decode n).map (fun text => (lines text.toList).map String.ofList)

/-- White space, as far as it may surround a number. -/
def isSpace (c : Char) : Bool :=
  [' ', '\t', '\n', '\x0b', '\x0c', '\r', '\u0085', '\u00a0', '\u1680', '\u2028', '\u2029',
    '\u202f', '\u205f', '\u3000'].contains c || '\u2000' ≤ c && c ≤ '\u200a'

def trim (text : List Char) : List Char :=
  ((text.dropWhile isSpace).reverse.dropWhile isSpace).reverse

/-- The number that decimal digits spell; there has to be a digit. -/
def digits? (ds : List Char) : Option Nat :=
  if ds.isEmpty || !ds.all Char.isDigit then none
  else some (ds.foldl (fun n d => n * 10 + (d.toNat - '0'.toNat)) 0)

/-- Read a number in base ten, possibly with a sign. -/
def parse (text : String) : Except Failure Int :=
  let number :=
    match trim text.toList with
    | '-' :: ds => (digits? ds).map (fun n => -(n : Int))
    | '+' :: ds => (digits? ds).map Int.ofNat
    | ds => (digits? ds).map Int.ofNat
  match number with
  | some n => .ok n
  | none => .error .notGodelNumber

end Arithmetization

end Typographical
