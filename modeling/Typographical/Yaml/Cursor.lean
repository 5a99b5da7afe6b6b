import Typographical.Yaml.Fault

/-!
# Reading a text

A cursor is a place in a text together with what is still to be read. The text
arrives in portions of at most 512 bytes, and only when a reader asks for
characters that are not there yet. A portion is checked when it arrives, so a
character that is not allowed is met when the first character of its portion is
asked for. What has arrived in front of it can still be read: a reader may go on
behind a fault, which is why reading keeps its place when it fails.
-/

namespace Typographical

namespace Yaml

/-- A place in a text, what follows, and how much of it has arrived, where the
end of the text counts as a character. Also kept: how many bytes the next portion
may have, the character that stood at the cursor when the last portion was asked
for, how many line breaks were read since the last character other than a blank,
and the length of the text, which bounds the rounds of every loop. -/
structure Cursor where
  mark : Mark
  rest : List Char
  ready : Nat
  room : Nat
  front : Option Char
  breaks : Nat
  size : Nat

def portionSize : Nat := 512

namespace Cursor

/-- The beginning of a text. A byte order mark in front is dropped, but takes
its place in the first portion. -/
def start (text : List Char) : Cursor :=
  let marked := text.head? = some orderMark
  { mark := .origin
    rest := if marked then text.tail else text
    ready := 0
    room := if marked then portionSize - orderMark.utf8Size else portionSize
    front := none
    breaks := 0
    size := text.length }

def head? (c : Cursor) : Option Char := c.rest.head?

def peek? (c : Cursor) (n : Nat) : Option Char := c.rest[n]?

def isAt (c : Cursor) (a : Char) : Bool := c.head? = some a

def atBreak (c : Cursor) : Bool := c.head?.any isBreak

def atLineEnd (c : Cursor) : Bool := c.head?.all isBreak

/-- Whether three equal characters stand alone at the beginning of a line. -/
def atTriple (c : Cursor) (a : Char) : Bool :=
  c.mark.column = 0 && c.rest.take 3 = [a, a, a] && isGap (c.peek? 3)

/-- Whether a mark that begins or ends a document stands here. -/
def atDocumentMark (c : Cursor) : Bool := c.atTriple '-' || c.atTriple '.'

/-- The cursor behind the next character. The end of the text can be passed
like a character. -/
def next (c : Cursor) : Cursor :=
  { c with
    mark := c.mark.right
    rest := c.rest.tail
    ready := c.ready - 1
    breaks := if c.head?.any isBlank then c.breaks else 0 }

def nextLine (c : Cursor) (width : Nat) : Cursor :=
  { c with
    mark := c.mark.below width
    rest := c.rest.drop width
    ready := c.ready - width
    breaks := c.breaks + 1 }

end Cursor

/-- The first characters of a text that fit into a number of bytes. -/
def portion : Nat → List Char → List Char
  | room, a :: rest => if a.utf8Size ≤ room then a :: portion (room - a.utf8Size) rest else []
  | _, [] => []

/-- Reading at a cursor, which stays where it is when reading fails. -/
abbrev Read := EStateM Fault Cursor

namespace Read

def fail {α : Type} (p : Problem) (start : Mark) : Read α := do
  throw (.inToken p start (← get).mark)

/-- Let portions arrive until there are `n` characters, or the text ends. Each
round lets one arrive. -/
def arrive (n : Nat) : Nat → Read Unit
  | 0 => return ()
  | rounds + 1 => do
    let c ← get
    if n ≤ c.ready then return ()
    match c.rest.drop c.ready with
    | [] => set { c with ready := c.ready + 1 }
    | later =>
      let next := portion c.room later
      let good := next.takeWhile isAllowed
      set { c with ready := c.ready + good.length, room := portionSize }
      if good.length < next.length then throw (.inText .controlCharacter)
      arrive n rounds

def demand (n : Nat) : Read Unit := do
  let c ← get
  if c.ready < n then
    set { c with front := c.head? }
    arrive n n

def skip : Read Unit := modify Cursor.next

def skips : Nat → Read Unit
  | 0 => return ()
  | n + 1 => do
    skip
    skips n

/-- Move over a line break, if there is one, and give what it contributes to a
text. -/
def lineBreak : Read (List Char) := do
  let c ← get
  match c.rest with
  | '\r' :: '\n' :: _ =>
    set (c.nextLine 2)
    return ['\n']
  | a :: _ =>
    if isBreak a then
      set (c.nextLine 1)
      return [normalBreak a]
    else return []
  | [] => return []

/-- Read characters that have a property, behind those in `text`, which stand
last character first. Each round reads one. -/
def whileFrom (p : Char → Bool) : Nat → List Char → Read (List Char)
  | 0, text => return text.reverse
  | rounds + 1, text => do
    match (← get).head? with
    | none => return text.reverse
    | some a =>
      if p a then
        skip
        demand 1
        whileFrom p rounds (a :: text)
      else return text.reverse

def span (p : Char → Bool) : Read (List Char) := do
  demand 1
  whileFrom p (← get).size []

def line : Read (List Char) := span (fun a => !isBreak a)

end Read

end Yaml

end Typographical
