import Typographical.Yaml.Cursor

/-!
# Scalars

The text of a scalar may run over several lines. In plain and quoted scalars a
single line break counts as a space, and of several the first is dropped. In
block scalars each line keeps its place behind a margin; lines of folded ones
are joined unless one of them is indented further.

While a scalar is read its text stands last character first.
-/

namespace Typographical

namespace Yaml

/-- Blanks and line breaks between two words: whether a line ended, the blanks
if none did, and the line breaks. -/
structure Gap where
  broken : Bool
  blanks : List Char
  breaks : List Char

namespace Gap

def none : Gap := ⟨false, [], []⟩

/-- The gap behind an escaped line break, which itself leaves no trace. -/
def escaped : Gap := ⟨true, [], []⟩

def addBlank (g : Gap) (a : Char) : Gap :=
  if g.broken then g else { g with blanks := g.blanks ++ [a] }

def addBreak (g : Gap) (b : List Char) : Gap := ⟨true, [], g.breaks ++ b⟩

def text (g : Gap) : List Char :=
  if !g.broken then g.blanks
  else
    match g.breaks with
    | ['\n'] => [' ']
    | '\n' :: more => more
    | breaks => breaks

/-- Read on in a gap inside a scalar that began at `start`. A tab may not stand
in the margin of a line. Each round reads a character. -/
def readFrom (margin : Nat) (start : Mark) : Nat → Gap → Read Gap
  | 0, g => return g
  | rounds + 1, g => do
    let c ← get
    match c.head? with
    | .none => return g
    | some a =>
      if isBlank a then
        if g.broken && a = '\t' && c.mark.column < margin then Read.fail .tabInScalar start
        Read.skip
        Read.demand 1
        readFrom margin start rounds (g.addBlank a)
      else if isBreak a then
        Read.demand 2
        let b ← Read.lineBreak
        Read.demand 1
        readFrom margin start rounds (g.addBreak b)
      else return g

def read (margin : Nat) (start : Mark) (g : Gap) : Read Gap := do
  readFrom margin start (← get).size g

end Gap

def endsPlain (inFlow : Bool) (a : Char) (following : Option Char) : Bool :=
  a = ':' && isGap following || inFlow && ",?[]\x7b\x7d".toList.contains a

/-- Read a word of a plain scalar, behind `word`. Each round reads a character. -/
def plainWordFrom (inFlow : Bool) : Nat → List Char → Read (List Char)
  | 0, word => return word
  | rounds + 1, word => do
    match (← get).rest with
    | [] => return word
    | a :: rest =>
      if isGap (some a) || endsPlain inFlow a rest.head? then return word
      else
        Read.skip
        Read.demand 2
        plainWordFrom inFlow rounds (a :: word)

/-- Read further words of a plain scalar that began at `start`, behind `text`
and a gap. Each round reads a word. The result says whether the scalar ends with
a line. -/
def plainFrom (inFlow : Bool) (margin : Nat) (start : Mark) :
    Nat → List Char → Gap → Read (List Char × Bool)
  | 0, text, gap => return (text, gap.broken)
  | rounds + 1, text, gap => do
    Read.demand 4
    let c ← get
    if c.atDocumentMark || c.isAt '#' then return (text, gap.broken)
    let word ← plainWordFrom inFlow c.size []
    if word.isEmpty then return (text, gap.broken)
    let text := word ++ gap.text.reverse ++ text
    if !(← get).head?.any (fun a => isGap (some a)) then return (text, false)
    let gap ← Gap.read margin start .none
    if !inFlow && (← get).mark.column < margin then return (text, gap.broken)
    plainFrom inFlow margin start rounds text gap

/-- Read a plain scalar whose lines have to be indented to a margin. The result
says whether it ends with a line. -/
def plainScalar (inFlow : Bool) (margin : Nat) : Read (List Char × Bool) := do
  let c ← get
  let (text, broken) ← plainFrom inFlow margin c.mark c.size [] .none
  return (text.reverse, broken)

def escapedChar? : Char → Option Char
  | '0' => some '\x00'
  | 'a' => some '\x07'
  | 'b' => some '\x08'
  | 't' => some '\t'
  | '\t' => some '\t'
  | 'n' => some '\n'
  | 'v' => some '\x0b'
  | 'f' => some '\x0c'
  | 'r' => some '\r'
  | 'e' => some '\x1b'
  | ' ' => some ' '
  | '"' => some '"'
  | '\'' => some '\''
  | '\\' => some '\\'
  | 'N' => some '\u0085'
  | '_' => some '\u00a0'
  | 'L' => some '\u2028'
  | 'P' => some '\u2029'
  | _ => none

def escapeDigits? : Char → Option Nat
  | 'x' => some 2
  | 'u' => some 4
  | 'U' => some 8
  | _ => none

def hexValue? (a : Char) : Option Nat :=
  if a.isDigit then some (a.toNat - '0'.toNat)
  else if 'a' ≤ a ∧ a ≤ 'f' then some (a.toNat - 'a'.toNat + 10)
  else if 'A' ≤ a ∧ a ≤ 'F' then some (a.toNat - 'A'.toNat + 10)
  else none

def hexNumber? (digits : List Char) : Option Nat :=
  digits.foldlM (fun n a => (hexValue? a).map (n * 16 + ·)) 0

def escapeCode (start : Mark) (count : Nat) : Read Char := do
  Read.demand count
  let digits := (← get).rest.take count
  match if digits.length = count then hexNumber? digits else none with
  | none => Read.fail .badEscapeDigits start
  | some code =>
    if !code.isValidChar then Read.fail .badEscapeCode start
    Read.skips count
    return Char.ofNat code

/-- Read an escape, beginning at its backslash, and give the character that it
stands for. -/
def escape (start : Mark) : Read Char := do
  match (← get).peek? 1 with
  | none => Read.fail .unknownEscape start
  | some a =>
    match escapedChar? a, escapeDigits? a with
    | some b, _ =>
      Read.skips 2
      return b
    | none, some count =>
      Read.skips 2
      escapeCode start count
    | none, none => Read.fail .unknownEscape start

def quoteOf (double : Bool) : Char := if double then '"' else '\''

/-- Read on in a quoted scalar that began at `start` up to a gap or the closing
quote, behind `text`. The result also gives the gap as far as it was read. Each
round reads a character. -/
def quotedWordFrom (double : Bool) (start : Mark) : Nat → List Char → Read (List Char × Gap)
  | 0, text => return (text, .none)
  | rounds + 1, text => do
    match (← get).rest with
    | [] => return (text, .none)
    | a :: rest =>
      if isGap (some a) then return (text, .none)
      else if a = quoteOf double then
        if !double && rest.head? = some '\'' then
          Read.skips 2
          Read.demand 2
          quotedWordFrom double start rounds ('\'' :: text)
        else return (text, .none)
      else if double && a = '\\' then
        if rest.head?.any isBreak then
          Read.demand 3
          Read.skip
          let _ ← Read.lineBreak
          return (text, .escaped)
        else
          let b ← escape start
          Read.demand 2
          quotedWordFrom double start rounds (b :: text)
      else
        Read.skip
        Read.demand 2
        quotedWordFrom double start rounds (a :: text)

/-- Read on in a quoted scalar that began at `start`, behind `text`. Each round
reads a word. -/
def quotedFrom (double : Bool) (start : Mark) : Nat → List Char → Read (List Char)
  | 0, _ => Read.fail .unclosedScalar start
  | rounds + 1, text => do
    Read.demand 4
    let c ← get
    if c.atDocumentMark then Read.fail .documentMarkInScalar start
    if c.rest.isEmpty then Read.fail .unclosedScalar start
    let (text, begun) ← quotedWordFrom double start c.size text
    Read.demand 1
    if (← get).isAt (quoteOf double) then
      Read.skip
      return text
    let gap ← Gap.read 0 start begun
    let inserted := if begun.broken then gap.breaks else gap.text
    quotedFrom double start rounds (inserted.reverse ++ text)

def quotedScalar (double : Bool) : Read (List Char) := do
  let c ← get
  Read.skip
  return (← quotedFrom double c.mark (c.size + 1) []).reverse

/-- What becomes of the line breaks at the end of a block scalar. -/
inductive Chomping where
  | strip
  | clip
  | keep
  deriving DecidableEq

/-- The first line of a block scalar: whether its lines are folded, what becomes
of its last line breaks, and how far it is indented if this is said. -/
structure BlockHeader where
  folded : Bool
  chomping : Chomping
  indentation : Option Nat

def chomping? : Read (Option Chomping) := do
  match (← get).head? with
  | some '-' =>
    Read.skip
    return some .strip
  | some '+' =>
    Read.skip
    return some .keep
  | _ => return none

/-- Read the digit of an indentation, if there is one; it may not be zero. -/
def indentation? (start : Mark) : Read (Option Nat) := do
  match (← get).head? with
  | some a =>
    if !a.isDigit then return none
    if a = '0' then Read.fail .zeroIndentation start
    Read.skip
    return some (a.toNat - '0'.toNat)
  | none => return none

/-- Read the signs on the first line of a block scalar, sign and digit in any
order, and the blanks behind them. -/
def blockHeader : Read BlockHeader := do
  let c ← get
  Read.skip
  Read.demand 1
  let early ← chomping?
  if early.isSome then Read.demand 1
  let indentation ← indentation? c.mark
  if indentation.isSome then Read.demand 1
  let late ← if early.isNone && indentation.isSome then chomping? else pure none
  let _ ← Read.span isBlank
  return ⟨c.isAt '>', (early.or late).getD .clip, indentation⟩

def blockHeaderEnd (start : Mark) : Read Unit := do
  if !(← get).atLineEnd then Read.fail .textAfterHeader start
  if (← get).atBreak then
    Read.demand 2
    let _ ← Read.lineBreak

/-- Move over spaces inside a margin; one of width zero is as wide as there are
spaces. Each round moves over one. -/
def indentTo (width : Nat) : Nat → Read Unit
  | 0 => return ()
  | rounds + 1 => do
    let c ← get
    if (width = 0 || c.mark.column < width) && c.isAt ' ' then
      Read.skip
      Read.demand 1
      indentTo width rounds

/-- Empty lines and the margin of the next line: the line breaks, and the
deepest column reached. -/
structure Margin where
  breaks : List Char
  deepest : Nat

/-- Read empty lines and a margin inside a scalar that began at `start`. No tab
may stand in the margin. Each round reads a line. -/
def marginFrom (start : Mark) (width : Nat) : Nat → Margin → Read Margin
  | 0, g => return g
  | rounds + 1, g => do
    Read.demand 1
    indentTo width (← get).size
    let c ← get
    let deepest := max g.deepest c.mark.column
    if (width = 0 || c.mark.column < width) && c.isAt '\t' then Read.fail .tabInMargin start
    if !c.atBreak then return ⟨g.breaks, deepest⟩
    Read.demand 2
    let b ← Read.lineBreak
    marginFrom start width rounds ⟨g.breaks ++ b, deepest⟩

def margin (start : Mark) (width : Nat) : Read Margin := do
  marginFrom start width ((← get).size + 1) ⟨[], 0⟩

/-- Read the lines of a block scalar from a line on, behind `text`. The last line
break, the empty lines behind it and whether the last line was indented are
remembered, for they decide how the next line is joined. Each round reads a
line. -/
def blockLinesFrom (header : BlockHeader) (start : Mark) (width : Nat) :
    Nat → List Char → List Char → Bool → Margin → Read (List Char)
  | 0, text, _, _, _ => return text
  | rounds + 1, text, lastBreak, indented, gap => do
    let c ← get
    if c.mark.column = width && !c.rest.isEmpty then
      let blank := c.head?.any isBlank
      let joint :=
        if header.folded && !indented && !blank && lastBreak.head? = some '\n' then
          if gap.breaks.isEmpty then [' '] else []
        else lastBreak
      let content ← Read.line
      Read.demand 2
      let newBreak ← Read.lineBreak
      let newGap ← margin start width
      blockLinesFrom header start width rounds
        ((joint ++ gap.breaks ++ content).reverse ++ text) newBreak blank newGap
    else
      match header.chomping with
      | .strip => return text
      | .clip => return lastBreak.reverse ++ text
      | .keep => return (lastBreak ++ gap.breaks).reverse ++ text

/-- Read the lines of a block scalar that began at `start`, inside a block that
is indented to a column, if there is such a block. -/
def blockLines (header : BlockHeader) (start : Mark) (outer : Option Nat) :
    Read (List Char) := do
  let given :=
    match header.indentation with
    | some n => outer.getD 0 + n
    | none => 0
  let gap ← margin start given
  let least :=
    match outer with
    | some column => column + 1
    | none => 1
  let width := if given = 0 then max gap.deepest least else given
  Read.demand 1
  return (← blockLinesFrom header start width ((← get).size + 1) [] [] false gap).reverse

end Yaml

end Typographical
