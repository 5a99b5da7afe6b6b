/-!
# Escape sequences

An escape sequence is a list of codes that tell a terminal how to show the text
that follows. Codes are 64-bit words, and those of colours wrap around.
-/

namespace Typographical

namespace Terminal

structure Escape where
  codes : List UInt64
  deriving DecidableEq

namespace Escape

/-- The codes of colours. -/
def red : UInt64 := 1

def green : UInt64 := 2

def cyan : UInt64 := 6

def plain : Escape := ⟨[]⟩

/-- The escape that undoes all others. -/
def reset : Escape := ⟨[0]⟩

def add (e : Escape) (code : UInt64) : Escape := ⟨e.codes ++ [code]⟩

def bold (e : Escape) : Escape := e.add 1

def foreground (e : Escape) (colour : UInt64) : Escape := e.add (30 + colour)

def background (e : Escape) (colour : UInt64) : Escape := e.add (40 + colour)

def text (e : Escape) : String :=
  "\x1b[" ++ ";".intercalate (e.codes.map toString) ++ "m"

/-- Some text shown in this way, and what follows as before. -/
def wrap (e : Escape) (content : String) : String := e.text ++ content ++ reset.text

end Escape

end Terminal

end Typographical
