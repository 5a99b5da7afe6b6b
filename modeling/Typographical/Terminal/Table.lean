import Typographical.Terminal.Escape
import Typographical.Text.Utf8

/-!
# Tables

A table is printed in columns that are as wide as their widest cell, or as a
maximum if that is smaller. Cells that do not fit are cut off. Cells hold bytes,
which need not be valid UTF-8; their width is the number of characters that
they are read as.
-/

namespace Typographical

namespace Terminal

structure Cell where
  content : ByteArray
  escape : Option Escape := none

def Cell.width (c : Cell) : Nat := (Utf8.chars c.content).length

/-- How wide a column may be at most, where zero sets no bound, and whether its
cells stand on the left. -/
structure Column where
  maximum : Nat := 0
  leftAligned : Bool := false
  deriving DecidableEq

/-- Columns with the number of characters of their widest cell so far, rows, and
whether escapes are printed. -/
structure Table where
  columns : List Column
  widths : List Nat
  rows : List (List Cell)
  escapes : Bool := true

namespace Table

inductive Fault where
  | rowLength
  | outOfRange
  | negativePadding
  deriving DecidableEq

def Fault.message : Fault → String
  | rowLength => "incorrect number of columns"
  | outOfRange => "index out of range"
  | negativePadding => "negative padding"

def empty (columns : Nat) : Table :=
  ⟨List.replicate columns {}, List.replicate columns 0, [], true⟩

def height (t : Table) : Nat := t.rows.length

/-- Append a row, which may widen its columns, and give its index. -/
def addRow (t : Table) (contents : List ByteArray) : Except Fault (Nat × Table) :=
  if contents.length = t.widths.length then
    let cells : List Cell := contents.map (fun c => { content := c })
    .ok (t.height, { t with
      widths := t.widths.zipWith (fun w c => max w c.width) cells
      rows := t.rows ++ [cells] })
  else .error .rowLength

def addRows (t : Table) (rows : List (List ByteArray)) : Except Fault Table :=
  rows.foldlM (fun t contents => (t.addRow contents).map Prod.snd) t

def get (t : Table) (column row : Nat) : Except Fault ByteArray :=
  match t.rows[row]?.bind (·[column]?) with
  | some c => .ok c.content
  | none => .error .outOfRange

def setEscape (t : Table) (column row : Nat) (e : Escape) : Except Fault Table :=
  match t.rows[row]? with
  | none => .error .outOfRange
  | some cells =>
    if column < cells.length then
      let cells := cells.modify column (fun c => { c with escape := some e })
      .ok { t with rows := t.rows.set row cells }
    else .error .outOfRange

def setRowEscape (t : Table) (row : Nat) (e : Escape) : Except Fault Table :=
  match t.rows[row]? with
  | none => .error .outOfRange
  | some cells =>
    let cells := cells.map (fun c => { c with escape := some e })
    .ok { t with rows := t.rows.set row cells }

def setColumn (t : Table) (column : Nat) (change : Column → Column) : Except Fault Table :=
  if column < t.columns.length then .ok { t with columns := t.columns.modify column change }
  else .error .outOfRange

def alignLeft (t : Table) (column : Nat) (left : Bool) : Except Fault Table :=
  t.setColumn column (fun c => { c with leftAligned := left })

def setMaximum (t : Table) (column maximum : Nat) : Except Fault Table :=
  t.setColumn column (fun c => { c with maximum := maximum })

def width (t : Table) (column : Nat) : Nat :=
  let widest := (t.widths[column]?).getD 0
  match t.columns[column]? with
  | some c => if c.maximum = 0 then widest else min widest c.maximum
  | none => widest

/-- Cut a cell off to fit a width, with two dots if there is room for them. -/
def clip (content : ByteArray) (width : Nat) : ByteArray :=
  let cs := Utf8.chars content
  if cs.length ≤ width then content
  else if width ≤ 2 then Utf8.bytes (cs.take width)
  else Utf8.bytes (cs.take (width - 2) ++ ['.', '.'])

/-- As many spaces; there are no negatively many. -/
def spaces (count : Int) : Except Fault ByteArray :=
  if count < 0 then .error .negativePadding
  else .ok (Utf8.bytes (List.replicate count.toNat ' '))

def pad (content : ByteArray) (width : Nat) (left : Bool) : Except Fault ByteArray := do
  let padding ← spaces ((width : Int) - (Utf8.chars content).length)
  return if left then content ++ padding else padding ++ content

/-- A cell as it stands in a row, behind a space and with its escape. -/
def field (t : Table) (column : Nat) (c : Cell) : Except Fault ByteArray := do
  let width := t.width column
  let left := (t.columns[column]?.map Column.leftAligned).getD false
  let shown := " ".toUTF8 ++ (← pad (clip c.content width) width left)
  match if t.escapes then c.escape else none with
  | none => return shown
  | some e => return e.text.toUTF8 ++ shown ++ Escape.reset.text.toUTF8

/-- The fields of a row from a column on, with bars between them. -/
def fields (t : Table) : Nat → List Cell → Except Fault ByteArray
  | _, [] => .ok .empty
  | column, [c] => t.field column c
  | column, c :: rest => do
    let first ← t.field column c
    return first ++ " |".toUTF8 ++ (← t.fields (column + 1) rest)

def trimRight (line : ByteArray) : ByteArray :=
  (line.toList.reverse.dropWhile (· = 32)).reverse.toByteArray

/-- The lines of a table, each ended by a line feed. -/
def print (t : Table) : Except Fault ByteArray := do
  let lines ← t.rows.mapM (fun cells => do
    return trimRight (← t.fields 0 cells) ++ "\n".toUTF8)
  return lines.foldl (· ++ ·) .empty

end Table

end Terminal

end Typographical
