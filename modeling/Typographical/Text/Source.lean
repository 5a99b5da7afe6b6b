/-!
# Source text

A span is a stretch of a text, counted in characters. A file is a named text. A
syntax error is a message about a span of a file, and is shown together with
the line on which the span begins.

Spans need not lie inside any particular file: one that reaches beyond the end
is clipped, and only one that begins before the start covers nothing.
-/

namespace Typographical

/-- The characters from `start` up to, and not including, `stop`. -/
structure Span where
  start : Int
  stop : Int
  ordered : start ≤ stop
  deriving DecidableEq

namespace Span

/-- The span with given ends, if these are in order. -/
def make? (start stop : Int) : Option Span :=
  if h : start ≤ stop then some ⟨start, stop, h⟩ else none

def disordered : String := "invalid span"

/-- The span of `count` characters from a position on. -/
def ofStart (start count : Nat) : Span := ⟨start, start + count, by omega⟩

def length (s : Span) : Int := s.stop - s.start

def join (s t : Span) : Span :=
  ⟨min s.start t.start, max s.stop t.stop, by
    have := s.ordered
    omega⟩

def text (s : Span) : String := toString s.start ++ ":" ++ toString s.stop

end Span

structure Line where
  content : List Char
  number : Nat
  start : Nat
  deriving DecidableEq

namespace Line

def length (l : Line) : Nat := l.content.length

def text (l : Line) : String := String.ofList l.content

/-- Walk through a text up to position `target`, where `seen` holds the
characters since the last line break in reverse order. -/
def locate (target : Int) : List Char → Nat → Nat → List Char → Line
  | [], position, number, seen => ⟨seen.reverse, number, position - seen.length⟩
  | c :: rest, position, number, seen =>
    if (position : Int) = target then
      ⟨seen.reverse ++ (c :: rest).takeWhile (· ≠ '\n'), number, position - seen.length⟩
    else if c = '\n' then
      locate target rest (position + 1) (number + 1) []
    else
      locate target rest (position + 1) number (c :: seen)

end Line

structure SourceFile where
  name : String
  contents : List Char
  deriving DecidableEq

namespace SourceFile

def ofString (name text : String) : SourceFile := ⟨name, text.toList⟩

def length (f : SourceFile) : Nat := f.contents.length

def whole (f : SourceFile) : Span := Span.ofStart 0 f.length

def slice (f : SourceFile) (s : Span) : List Char :=
  (f.contents.take s.stop.toNat).drop s.start.toNat

/-- The text that a span covers, unless it begins before the file. -/
def text? (f : SourceFile) (s : Span) : Option String :=
  if s.start < 0 then none else some (String.ofList (f.slice s))

/-- The line on which a span begins; a span that begins after the end is taken
to begin on the last line. -/
def lineOf (f : SourceFile) (s : Span) : Line :=
  Line.locate s.start f.contents 0 1 []

end SourceFile

structure SyntaxError where
  file : SourceFile
  span : Span
  message : String
  deriving DecidableEq

namespace SyntaxError

def offending (e : SyntaxError) : String := String.ofList (e.file.slice e.span)

def line (e : SyntaxError) : Line := e.file.lineOf e.span

/-- Span and message, followed by the offending text unless that is empty. -/
def text (e : SyntaxError) : String :=
  let subject := if e.offending = "" then "" else " (\"" ++ e.offending ++ "\")"
  e.span.text ++ ":" ++ e.message ++ subject

end SyntaxError

end Typographical
