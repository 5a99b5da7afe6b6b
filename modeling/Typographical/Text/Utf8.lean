/-!
# Bytes and characters

Text arrives as bytes. Reading it as UTF-8 never fails here: a byte that begins
no valid sequence is read as one replacement character. Which sequences are
valid is decided by the standard library.
-/

namespace Typographical

namespace Utf8

/-- What stands for a byte that begins no valid sequence. -/
def replacement : Char := '\uFFFD'

/-- The characters from a byte position on, at most `count` of them. -/
def charsFrom (bytes : ByteArray) : Nat → Nat → List Char
  | 0, _ => []
  | count + 1, i =>
    if i < bytes.size then
      match bytes.utf8DecodeChar? i with
      | some c => c :: charsFrom bytes count (i + c.utf8Size)
      | none => replacement :: charsFrom bytes count (i + 1)
    else []

/-- The characters of a byte string. There are at most as many as bytes. -/
def chars (bytes : ByteArray) : List Char := charsFrom bytes bytes.size 0

def bytes (cs : List Char) : ByteArray := (String.ofList cs).toUTF8

def text (bytes : ByteArray) : String := String.ofList (chars bytes)

end Utf8

end Typographical
