import Mathlib.Data.List.DropRight
import Typographical.Proofs.Bytes
import Typographical.Proofs.Outcome
import Typographical.Terminal.Table

/-!
# Columns that line up

A cell is cut off before it is filled up, and it is measured in characters both
times, so there is never more of it than its column is wide. Bytes that are not
valid UTF-8 make no difference: each of them counts as one character before and
after spaces are put beside it. So a table is always printed, and every field of a
column has the same number of characters.

The table may be built by any calls in any order. What is printed depends on the
rows that were added and on the last setting of each column only.
-/

namespace Typographical

namespace Terminal

namespace Table

variable {content : ByteArray} {w n : Nat} {left : Bool}

def blanks (n : Nat) : ByteArray := Utf8.bytes (List.replicate n ' ')

/-- What is printed for a cell in a column of a given width. -/
structure Fills (content : ByteArray) (left : Bool) (w : Nat) (field : ByteArray) : Prop where
  width : (Utf8.chars field).length = w
  whole : (Utf8.chars content).length ≤ w →
    field = if left then content ++ blanks (w - (Utf8.chars content).length)
      else blanks (w - (Utf8.chars content).length) ++ content
  marked : w < (Utf8.chars content).length → 2 < w →
    field = Utf8.bytes ((Utf8.chars content).take (w - 2) ++ ['.', '.'])
  narrow : w < (Utf8.chars content).length → w ≤ 2 →
    field = Utf8.bytes ((Utf8.chars content).take w)

theorem clip_of_le (h : (Utf8.chars content).length ≤ w) : clip content w = content := by
  simp only [clip, if_pos h]

/-- A cell that is cut off has as many characters as its column is wide. -/
theorem length_clip_of_lt (h : w < (Utf8.chars content).length) :
    (Utf8.chars (clip content w)).length = w := by
  simp only [clip, if_neg (Nat.not_le.mpr h)]
  split
  · rw [Utf8.chars_bytes, List.length_take_of_le (by omega)]
  · rw [Utf8.chars_bytes, List.length_append, List.length_take_of_le (by omega)]
    simp only [List.length_cons, List.length_nil]
    omega

theorem spaces_natCast (n : Nat) : spaces n = .ok (blanks n) := by
  rw [spaces, if_neg (by omega), Int.toNat_natCast]
  rfl

theorem pad_eq (h : (Utf8.chars content).length ≤ w) :
    pad content w left =
      .ok (if left then content ++ blanks (w - (Utf8.chars content).length)
        else blanks (w - (Utf8.chars content).length) ++ content) := by
  rw [pad, ← Int.ofNat_sub h, spaces_natCast]
  rfl

theorem length_pad (content : ByteArray) (n : Nat) (left : Bool) :
    (Utf8.chars (if left then content ++ blanks n else blanks n ++ content)).length =
      (Utf8.chars content).length + n := by
  cases left with
  | true =>
    rw [if_pos rfl, blanks, Utf8.chars_append_bytes, List.length_append, List.length_replicate]
  | false =>
    rw [if_neg Bool.false_ne_true, blanks, Utf8.chars_bytes_append, List.length_append,
      List.length_replicate, Nat.add_comm]

/-- No more spaces are asked for than there are, since a cell is cut off first. -/
theorem exists_fills (content : ByteArray) (left : Bool) (w : Nat) :
    ∃ field, pad (clip content w) w left = .ok field ∧ Fills content left w field := by
  rcases Nat.lt_or_ge w (Utf8.chars content).length with hlt | hle
  · have hlen := length_clip_of_lt hlt
    refine ⟨clip content w, ?_, hlen, fun h => absurd h (by omega), ?_, ?_⟩
    · rw [pad_eq (by omega), hlen, Nat.sub_self]
      have hnone : blanks 0 = .empty := rfl
      simp [hnone]
    · intro _ hw
      simp only [clip, if_neg (Nat.not_le.mpr hlt), if_neg (Nat.not_le.mpr hw)]
    · intro _ hw
      simp only [clip, if_neg (Nat.not_le.mpr hlt), if_pos hw]
  · rw [clip_of_le hle, pad_eq hle]
    refine ⟨_, rfl, ?_, fun _ => rfl, fun h => absurd h (by omega), fun h => absurd h (by omega)⟩
    rw [length_pad]
    omega

def isLeft (t : Table) (column : Nat) : Bool :=
  (t.columns[column]?.map Column.leftAligned).getD false

def space : UInt8 := 32

def bar : List UInt8 := [32, 124]

/-- The bytes of fields, each behind a space and with bars between them. -/
def joined (fields : List ByteArray) : List UInt8 :=
  bar.intercalate (fields.map (fun field => space :: field.toList))

/-- The bytes of lines, each ended by a line feed. -/
def ended (lines : List (List UInt8)) : List UInt8 := lines.flatMap (fun line => line ++ [10])

section

variable (width : Nat → Nat) (left : Nat → Bool)

/-- Fields that are printed for cells, where the first one is in a given column. -/
def FillsFrom (column : Nat) (row fields : List ByteArray) : Prop :=
  fields.length = row.length ∧
    ∀ k content field, row[k]? = some content → fields[k]? = some field →
      Fills content (left (column + k)) (width (column + k)) field

/-- What is printed for a row, without the spaces at its end. -/
def IsLine (row : List ByteArray) (line : List UInt8) : Prop :=
  ∃ fields, FillsFrom width left 0 row fields ∧ line = (joined fields).rdropWhile (· = space)

variable {width left}

theorem FillsFrom.cons {column : Nat} {content field : ByteArray} {row fields : List ByteArray}
    (h : Fills content (left column) (width column) field)
    (hrest : FillsFrom width left (column + 1) row fields) :
    FillsFrom width left column (content :: row) (field :: fields) := by
  refine ⟨congrArg (· + 1) hrest.1, ?_⟩
  intro k content' field' hcontent hfield
  cases k with
  | zero =>
    cases hcontent
    cases hfield
    exact h
  | succ k =>
    have hk : column + (k + 1) = column + 1 + k := by omega
    rw [hk]
    exact hrest.2 k content' field' hcontent hfield

end

theorem exists_field (t : Table) (column : Nat) (c : Cell) :
    ∃ shown field, t.field column c = .ok shown ∧
      Fills c.content (t.isLeft column) (t.width column) field ∧
      (t.escapes = false → shown.toList = space :: field.toList) := by
  obtain ⟨field, hpad, hfills⟩ := exists_fills c.content (t.isLeft column) (t.width column)
  have hshown : (" ".toUTF8 ++ field).toList = space :: field.toList := by
    rw [Utf8.toList_append, Utf8.toList_eq_data]
    rfl
  rw [isLeft] at hpad
  rw [Table.field]
  dsimp only
  rw [hpad]
  cases hescape : (if t.escapes then c.escape else none) with
  | none => exact ⟨_, field, rfl, hfills, fun _ => hshown⟩
  | some e =>
    refine ⟨_, field, rfl, hfills, ?_⟩
    intro hoff
    rw [hoff] at hescape
    cases hescape

theorem exists_fields (t : Table) (column : Nat) (cells : List Cell) :
    ∃ line fields, t.fields column cells = .ok line ∧
      FillsFrom t.width t.isLeft column (cells.map Cell.content) fields ∧
      (t.escapes = false → line.toList = joined fields) := by
  induction cells generalizing column with
  | nil =>
    refine ⟨_, [], rfl, ⟨rfl, ?_⟩, fun _ => ByteArray.toList_empty⟩
    intro k content field hcontent
    cases hcontent
  | cons c rest ih =>
    obtain ⟨first, field, hfirst, hfills, hshown⟩ := t.exists_field column c
    obtain ⟨line, fields, hline, hrest, hjoined⟩ := ih (column + 1)
    cases rest with
    | nil =>
      obtain rfl := List.length_eq_zero_iff.mp hrest.1
      refine ⟨first, [field], hfirst, hrest.cons hfills, ?_⟩
      simpa [joined, List.intercalate] using hshown
    | cons c' rest =>
      refine ⟨first ++ " |".toUTF8 ++ line, field :: fields, ?_, hrest.cons hfills, ?_⟩
      · rw [Table.fields, hfirst, hline]
        · rfl
        · exact List.cons_ne_nil c' rest
      · intro hoff
        obtain ⟨field', fields, rfl⟩ := List.exists_cons_of_length_eq_add_one hrest.1
        have hbar : " |".toUTF8.toList = bar := by
          rw [Utf8.toList_eq_data]
          rfl
        rw [Utf8.toList_append, Utf8.toList_append, hbar, hshown hoff, hjoined hoff]
        simp [joined, List.intercalate]

theorem toList_trimRight (line : ByteArray) :
    (trimRight line).toList = line.toList.rdropWhile (· = space) := by
  rw [trimRight, Utf8.toList_toByteArray]
  rfl

theorem toList_foldl_append (parts : List ByteArray) (b : ByteArray) :
    (parts.foldl (· ++ ·) b).toList = b.toList ++ parts.flatMap ByteArray.toList := by
  induction parts generalizing b with
  | nil => simp
  | cons part parts ih => rw [List.foldl_cons, ih, Utf8.toList_append]; simp

theorem exists_lines (t : Table) (rows : List (List Cell)) :
    ∃ parts,
      rows.mapM (fun cells => do return trimRight (← t.fields 0 cells) ++ "\n".toUTF8) =
        Except.ok parts ∧
      (t.escapes = false → ∃ lines,
        List.Forall₂ (IsLine t.width t.isLeft) (rows.map (List.map Cell.content)) lines ∧
        parts.flatMap ByteArray.toList = ended lines) := by
  induction rows with
  | nil => exact ⟨[], rfl, fun _ => ⟨[], .nil, rfl⟩⟩
  | cons cells rows ih =>
    obtain ⟨parts, hparts, hlines⟩ := ih
    obtain ⟨line, fields, hline, hfills, hjoined⟩ := t.exists_fields 0 cells
    refine ⟨(trimRight line ++ "\n".toUTF8) :: parts, ?_, ?_⟩
    · rw [List.mapM_cons, hparts, hline]
      rfl
    · intro hoff
      obtain ⟨lines, hlines, hended⟩ := hlines hoff
      have hthis : IsLine t.width t.isLeft (cells.map Cell.content) (trimRight line).toList :=
        ⟨fields, hfills, by rw [toList_trimRight, hjoined hoff]⟩
      have hfeed : "\n".toUTF8.toList = [10] := by
        rw [Utf8.toList_eq_data]
        rfl
      refine ⟨(trimRight line).toList :: lines, .cons hthis hlines, ?_⟩
      rw [List.flatMap_cons, Utf8.toList_append, hfeed, hended]
      rfl

/-- Every table is printed, with escapes or without. -/
theorem exists_print (t : Table) :
    ∃ printed, t.print = .ok printed ∧ (t.escapes = false → ∃ lines,
      List.Forall₂ (IsLine t.width t.isLeft) (t.rows.map (List.map Cell.content)) lines ∧
      printed.toList = ended lines) := by
  obtain ⟨parts, hparts, hlines⟩ := t.exists_lines t.rows
  refine ⟨parts.foldl (· ++ ·) .empty, ?_, ?_⟩
  · rw [print, hparts]
    rfl
  · intro hoff
    obtain ⟨lines, hforall, hended⟩ := hlines hoff
    refine ⟨lines, hforall, ?_⟩
    rw [toList_foldl_append, hended, ByteArray.toList_empty, List.nil_append]

/-- The largest number of characters that a cell of a column has; zero if there is
no cell. -/
structure Largest (rows : List (List ByteArray)) (column w : Nat) : Prop where
  bound : ∀ row ∈ rows, ∀ content, row[column]? = some content → (Utf8.chars content).length ≤ w
  attained : w = 0 ∨
    ∃ row ∈ rows, ∃ content, row[column]? = some content ∧ (Utf8.chars content).length = w

/-- A width with a maximum, where zero sets no bound. -/
def capped (maximum w : Nat) : Nat := if maximum = 0 then w else min w maximum

/-- A row that is added may have a wider cell. -/
theorem Largest.append {rows : List (List ByteArray)} {row : List ByteArray} {column : Nat}
    (h : Largest rows column w) (hrow : row[column]? = some content) :
    Largest (rows ++ [row]) column (max w (Utf8.chars content).length) := by
  constructor
  · intro row' hrow' content' hcontent'
    rcases List.mem_append.mp hrow' with hold | hnew
    · exact Nat.le_trans (h.bound row' hold content' hcontent') (Nat.le_max_left ..)
    · obtain rfl := List.mem_singleton.mp hnew
      rw [hrow] at hcontent'
      cases hcontent'
      exact Nat.le_max_right ..
  · have hnew : row ∈ rows ++ [row] := List.mem_append_right _ List.mem_cons_self
    rcases Nat.le_total w (Utf8.chars content).length with hle | hle
    · exact Or.inr ⟨row, hnew, content, hrow, (Nat.max_eq_right hle).symm⟩
    · rw [Nat.max_eq_left hle]
      rcases h.attained with hzero | ⟨row', hrow', content', hcontent', hsame⟩
      · exact Or.inl hzero
      · exact Or.inr ⟨row', List.mem_append_left _ hrow', content', hcontent', hsame⟩

/-- A table with settings and a running width for each of a number of columns. -/
structure Sized (t : Table) (n : Nat) : Prop where
  columns : t.columns.length = n
  widths : t.widths.length = n

theorem sized_empty (n : Nat) : (empty n).Sized n :=
  ⟨List.length_replicate, List.length_replicate⟩

namespace Sized

variable {t : Table}

/-- A row with a cell for each column is added, and each cell may widen its column. -/
theorem exists_addRow {contents : List ByteArray} (h : t.Sized n)
    (hcontents : contents.length = n) :
    ∃ t', t.addRow contents = .ok (t.height, t') ∧ t'.Sized n ∧
      t'.columns = t.columns ∧ t'.rows = t.rows ++ [contents.map (fun c => { content := c })] ∧
      ∀ (j w : Nat) (content : ByteArray), t.widths[j]? = some w → contents[j]? = some content →
        t'.widths[j]? = some (max w (Utf8.chars content).length) := by
  have hlength : contents.length = t.widths.length := hcontents.trans h.widths.symm
  refine ⟨_, if_pos hlength, ⟨h.columns, ?_⟩, rfl, rfl, ?_⟩
  · rw [List.length_zipWith, List.length_map, hlength, Nat.min_self]
    exact h.widths
  · intro j w content hw hcontent
    simp [List.getElem?_zipWith, hw, hcontent, Cell.width]

theorem setColumn {k : Nat} {change : Column → Column} (h : t.Sized n) (hk : k < n) :
    t.setColumn k change = .ok { t with columns := t.columns.modify k change } ∧
      Sized { t with columns := t.columns.modify k change } n := by
  have hsize : k < t.columns.length := h.columns.symm ▸ hk
  exact ⟨if_pos hsize, (List.length_modify ..).trans h.columns, h.widths⟩

section

variable {row : Nat} {cells : List Cell}

theorem exists_setEscape {column : Nat} (h : t.Sized n) (hrow : t.rows[row]? = some cells)
    (hcolumn : column < cells.length) (e : Escape) :
    ∃ t', t.setEscape column row e = .ok t' ∧ t'.Sized n := by
  rw [setEscape, hrow]
  exact ⟨_, if_pos hcolumn, h.columns, h.widths⟩

theorem exists_setRowEscape (h : t.Sized n) (hrow : t.rows[row]? = some cells) (e : Escape) :
    ∃ t', t.setRowEscape row e = .ok t' ∧ t'.Sized n := by
  rw [setRowEscape, hrow]
  exact ⟨_, rfl, h.columns, h.widths⟩

end

end Sized

inductive Operation where
  | addRow (contents : List ByteArray)
  | alignLeft (column : Nat) (left : Bool)
  | setMaximum (column maximum : Nat)

namespace Operation

def apply (t : Table) : Operation → Except Fault Table
  | addRow contents => (t.addRow contents).map Prod.snd
  | alignLeft column left => t.alignLeft column left
  | setMaximum column maximum => t.setMaximum column maximum

/-- A row has one cell for each column, and a setting is one of a column. -/
def Fits (columns : Nat) : Operation → Prop
  | addRow contents => contents.length = columns
  | alignLeft column _ => column < columns
  | setMaximum column _ => column < columns

def row? : Operation → Option (List ByteArray)
  | addRow contents => some contents
  | _ => none

def maximum? (column : Nat) : Operation → Option Nat
  | setMaximum k maximum => if k = column then some maximum else none
  | _ => none

def alignment? (column : Nat) : Operation → Option Bool
  | alignLeft k left => if k = column then some left else none
  | _ => none

end Operation

def build (columns : Nat) (ops : List Operation) : Except Fault Table :=
  ops.foldlM Operation.apply (empty columns)

def added (ops : List Operation) : List (List ByteArray) := ops.filterMap Operation.row?

/-- The settings of a column. The last ones count. -/
def setting (ops : List Operation) (column : Nat) : Column where
  maximum := (ops.filterMap (Operation.maximum? column)).getLastD 0
  leftAligned := (ops.filterMap (Operation.alignment? column)).getLastD false

/-- The table is what operations ask for. -/
structure Built (columns : Nat) (ops : List Operation) (t : Table) : Prop where
  sized : t.Sized columns
  rows : t.rows.map (List.map Cell.content) = added ops
  column : ∀ j < columns, t.columns[j]? = some (setting ops j)
  widest : ∀ j < columns, ∃ w, t.widths[j]? = some w ∧ Largest (added ops) j w

theorem built_empty (columns : Nat) : Built columns [] (empty columns) where
  sized := sized_empty columns
  rows := rfl
  column := fun _ hj => List.getElem?_replicate_of_lt hj
  widest := fun _ hj =>
    ⟨0, List.getElem?_replicate_of_lt hj, fun _ hrow => absurd hrow List.not_mem_nil, Or.inl rfl⟩

theorem getLastD_filterMap_append {α β : Type} (f : α → Option β) (xs : List α) (x : α) (b : β) :
    ((xs ++ [x]).filterMap f).getLastD b = (f x).getD ((xs.filterMap f).getLastD b) := by
  cases hx : f x <;> simp [hx]

/-- A setting overrides those before it. -/
theorem setting_append (ops : List Operation) (op : Operation) (column : Nat) :
    setting (ops ++ [op]) column =
      ⟨(op.maximum? column).getD (setting ops column).maximum,
        (op.alignment? column).getD (setting ops column).leftAligned⟩ := by
  rw [setting, getLastD_filterMap_append, getLastD_filterMap_append]
  rfl

/-- A change of one column leaves the others as they are. -/
theorem Built.setColumn {columns k : Nat} {ops : List Operation} {t : Table} {op : Operation}
    {change : Column → Column} (h : Built columns ops t) (hk : k < columns)
    (norow : op.row? = none)
    (here : change (setting ops k) = setting (ops ++ [op]) k)
    (elsewhere : ∀ j, k ≠ j → setting ops j = setting (ops ++ [op]) j) :
    ∃ t', t.setColumn k change = .ok t' ∧ Built columns (ops ++ [op]) t' := by
  obtain ⟨hset, hsized⟩ := h.sized.setColumn hk
  have hadded : added (ops ++ [op]) = added ops := by simp [added, norow]
  refine ⟨_, hset, hsized, ?_, ?_, ?_⟩
  · rw [hadded]
    exact h.rows
  · intro j hj
    rw [List.getElem?_modify, h.column j hj]
    by_cases hkj : k = j
    · rw [← hkj, ← here]
      simp
    · rw [← elsewhere j hkj]
      simp [hkj]
  · rw [hadded]
    exact h.widest

/-- One step: an operation that fits is carried out. -/
theorem Built.step {columns : Nat} {ops : List Operation} {t : Table} {op : Operation}
    (h : Built columns ops t) (fits : op.Fits columns) :
    ∃ t', op.apply t = .ok t' ∧ Built columns (ops ++ [op]) t' := by
  cases op with
  | addRow contents =>
    obtain ⟨t', hadd, hsized, hcolumns, hrows, hwidths⟩ := h.sized.exists_addRow fits
    have hadded : added (ops ++ [.addRow contents]) = added ops ++ [contents] := by
      simp [added, Operation.row?]
    refine ⟨t', by rw [Operation.apply, hadd]; rfl, hsized, ?_, ?_, ?_⟩
    · have hcontents : (contents.map (fun c => ({ content := c } : Cell))).map Cell.content =
          contents := by
        rw [List.map_map]
        exact List.map_id contents
      rw [hrows, hadded, List.map_append, h.rows, List.map_singleton, hcontents]
    · intro j hj
      rw [hcolumns, setting_append]
      exact h.column j hj
    · intro j hj
      obtain ⟨w, hw, hlargest⟩ := h.widest j hj
      have hlt : j < contents.length := Nat.lt_of_lt_of_eq hj (Eq.symm fits)
      have hcell := List.getElem?_eq_getElem hlt
      rw [hadded]
      exact ⟨_, hwidths j w _ hw hcell, hlargest.append hcell⟩
  | alignLeft k left =>
    refine h.setColumn fits rfl ?_ ?_
    · simp [setting_append, Operation.maximum?, Operation.alignment?]
    · intro j hkj
      simp [setting_append, Operation.maximum?, Operation.alignment?, hkj]
  | setMaximum k maximum =>
    refine h.setColumn fits rfl ?_ ?_
    · simp [setting_append, Operation.maximum?, Operation.alignment?]
    · intro j hkj
      simp [setting_append, Operation.maximum?, Operation.alignment?, hkj]

/-- A whole run. -/
theorem exists_built {columns : Nat} {ops : List Operation}
    (fits : ∀ op ∈ ops, op.Fits columns) :
    ∃ t, build columns ops = .ok t ∧ Built columns ops t := by
  induction ops using List.reverseRecOn with
  | nil => exact ⟨_, rfl, built_empty columns⟩
  | append_singleton ops op ih =>
    obtain ⟨t, hbuild, hbuilt⟩ := ih (fun op' hop => fits op' (List.mem_append_left _ hop))
    obtain ⟨t', hstep, hbuilt'⟩ := hbuilt.step (fits op (List.mem_append_right _ (by simp)))
    refine ⟨t', ?_, hbuilt'⟩
    have happend : build columns (ops ++ [op]) = build columns ops >>= (Operation.apply · op) := by
      simp [build, List.foldlM_append]
    rw [happend, hbuild]
    exact hstep

theorem Built.width {columns : Nat} {ops : List Operation} {t : Table} (h : Built columns ops t)
    {j : Nat} (hj : j < columns) :
    ∃ w, Largest (added ops) j w ∧ t.width j = capped (setting ops j).maximum w := by
  obtain ⟨w, hw, hlargest⟩ := h.widest j hj
  refine ⟨w, hlargest, ?_⟩
  rw [Table.width, h.column j hj, hw, capped, Option.getD_some]

theorem Built.isLeft {columns : Nat} {ops : List Operation} {t : Table} (h : Built columns ops t)
    {j : Nat} (hj : j < columns) : t.isLeft j = (setting ops j).leftAligned := by
  rw [Table.isLeft, h.column j hj, Option.map_some, Option.getD_some]

/-- However a table is built, printing it without escapes succeeds, and the columns
line up. A line consists of one field for each cell of its row, each behind a space
and with bars between them, where the spaces at the end are left out. All fields of
a column have the same number of characters: that of its widest cell, or the
maximum that was set last if that is smaller. A cell that fits is filled up with
spaces on the side that was set last; of any other the beginning is shown, with two
dots if there is room for more than them. -/
theorem columns_line_up (columns : Nat) (ops : List Operation)
    (fits : ∀ op ∈ ops, op.Fits columns) :
    ∃ t printed lines width left, build columns ops = .ok t ∧
      { t with escapes := false }.print = .ok printed ∧ printed.toList = ended lines ∧
      List.Forall₂ (IsLine width left) (added ops) lines ∧
      ∀ j < columns, left j = (setting ops j).leftAligned ∧
        ∃ w, Largest (added ops) j w ∧ width j = capped (setting ops j).maximum w := by
  obtain ⟨t, hbuild, hbuilt⟩ := exists_built fits
  obtain ⟨printed, hprint, hoff⟩ := exists_print { t with escapes := false }
  obtain ⟨lines, hlines, hended⟩ := hoff rfl
  refine ⟨t, printed, lines, t.width, t.isLeft, hbuild, hprint, hended, ?_, ?_⟩
  · rw [← hbuilt.rows]
    exact hlines
  · intro j hj
    exact ⟨hbuilt.isLeft hj, hbuilt.width hj⟩

/-- The first column holds two bytes that begin a character without ending it, and
the second one is set to three characters after a row was added. -/
theorem columns_line_up_invalid :
    let ops : List Operation := [
      .addRow [[0xE2, 0x82].toByteArray, "Sa=Sb".toUTF8], .setMaximum 1 3,
      .addRow ["x".toUTF8, "0=0".toUTF8], .alignLeft 1 true]
    (∀ op ∈ ops, op.Fits 2) ∧
      ((build 2 ops).bind (fun t => { t with escapes := false }.print)).map ByteArray.toList =
        .ok (ended [[32, 0xE2, 0x82, 32, 124, 32, 83, 46, 46],
          [32, 32, 120, 32, 124, 32, 48, 61, 48]]) ∧
      ∃ t printed lines width left, build 2 ops = .ok t ∧
        { t with escapes := false }.print = .ok printed ∧ printed.toList = ended lines ∧
        List.Forall₂ (IsLine width left) (added ops) lines ∧
        ∀ j < 2, left j = (setting ops j).leftAligned ∧
          ∃ w, Largest (added ops) j w ∧ width j = capped (setting ops j).maximum w := by
  intro ops
  have fits : ∀ op ∈ ops, op.Fits 2 := by
    simp [ops, Operation.Fits]
  refine ⟨fits, ?_, columns_line_up 2 ops fits⟩
  decide +kernel

end Table

end Terminal

end Typographical
