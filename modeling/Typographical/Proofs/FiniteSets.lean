import Mathlib.Data.List.Nodup
import Mathlib.Data.Set.Lattice
import Typographical.Proofs.SortedSet

/-!
# Sorted sets are sets

Each operation on sorted sets lists, in strictly ascending order, what the
operation on sets of the same name has as members.

Uniting two sets counts first how many members they share, and then writes the
members into as many cells as are left. The count and the writing go through both
lists in the same way, so that the cells are just enough: each is written once,
the first one first, and nothing is written behind the last one. This does not
even need that the lists are ascending.
-/

namespace Typographical

universe u v

namespace SortedSet

variable {α : Type u} [Ord α] {β : Type v}

def members (s : SortedSet α) : Set α := {a | a ∈ s}

/-- A list that has the members of a set, in strictly ascending order. -/
structure Lists (xs : List α) (S : Set α) : Prop where
  ascending : Ascending xs
  members : ∀ a, a ∈ xs ↔ a ∈ S

/-- An array is ascending by its type, so only the members are to be looked at. -/
theorem lists_iff {s : SortedSet α} {S : Set α} : Lists s.toList S ↔ s.members = S := by
  constructor
  · intro h
    exact Set.ext h.members
  · rintro rfl
    exact ⟨s.ascending, fun a => Iff.rfl⟩

section

variable (xs ys : List α)

theorem size_blank : (blank xs ys).size = (merge xs ys).length := by
  rw [blank_eq, Array.size_replicate]

/-- The cells are written in their order, up to the last one. -/
theorem map_snd_writes : (writes xs 0 ys).map Prod.snd = List.range (blank xs ys).size := by
  rw [writes_eq, size_blank, List.zipIdx_map_snd, List.range_eq_range']

theorem count_writes (cell : Nat) :
    ((writes xs 0 ys).map Prod.snd).count cell = if cell < (blank xs ys).size then 1 else 0 := by
  rw [map_snd_writes]
  split
  · next h => exact List.count_eq_one_of_mem List.nodup_range (List.mem_range.mpr h)
  · next h => exact List.count_eq_zero.mpr fun hmem => h (List.mem_range.mp hmem)

end

variable [Std.TransOrd α] [Std.LawfulEqOrd α] {s t : SortedSet α} {x : α}

/-- As many shared members are counted as the second set has exactly if it is part
of the first one. -/
theorem countCommon_eq_size_iff :
    countCommon s.toList t.toList = t.size ↔ t.members ⊆ s.members := by
  have hsize : t.size = t.toList.length := Array.length_toList.symm
  rw [countCommon_eq, hsize]
  constructor
  · intro h a ha
    have hall := (intersect_sublist_right s.toList t.toList).eq_of_length h
    have hmem : a ∈ intersect s.toList t.toList := by
      rw [hall]
      exact ha
    exact ((mem_intersect s.ascending t.ascending).mp hmem).1
  · intro h
    have hsame : s.inter t = t := by
      refine ext_mem fun a => ?_
      rw [mem_inter]
      exact and_iff_right_of_imp fun ha => h ha
    exact congrArg (fun u => u.toList.length) hsame

theorem union_of_subset (h : t.members ⊆ s.members) : s.union t = s :=
  if_pos (countCommon_eq_size_iff.mpr h)

/-- Unless the second set is part of the first one, the union is what the cells
hold in the end. -/
theorem fill_eq_of_not_subset (h : ¬ t.members ⊆ s.members) :
    fill (blank s.toList t.toList) (writes s.toList 0 t.toList) =
      ((s.union t).toList.map some).toArray := by
  have hunion : (s.union t).toList = merge s.toList t.toList := by
    rw [union, if_neg (mt countCommon_eq_size_iff.mp h)]
    exact held_fill _ _
  rw [hunion, fill_blank]

theorem intersects_iff : s.intersects t = true ↔ (s.members ∩ t.members).Nonempty := by
  rw [intersects, decide_eq_true_iff, countCommon_eq, List.length_pos_iff_exists_mem]
  exact exists_congr fun a => mem_intersect s.ascending t.ascending

theorem mem_unionMap {f : β → SortedSet α} {ys : List β} {a : α} :
    a ∈ unionMap f ys ↔ ∃ y ∈ ys, a ∈ f y := by
  have fold : ∀ s : SortedSet α, a ∈ ys.foldl (fun s y => s.union (f y)) s ↔
      a ∈ s ∨ ∃ y ∈ ys, a ∈ f y := by
    induction ys with
    | nil => simp
    | cons y ys ih =>
      intro s
      rw [List.foldl_cons, ih, mem_union, or_assoc]
      simp only [List.mem_cons, exists_eq_or_imp]
  rw [unionMap, fold]
  exact or_iff_right (not_mem_empty a)

/-- Sorted sets implement sets. What the operations give is strictly ascending and
has the members of the operation on sets; an element is found by bisection exactly
if it is a member; and two sets are said to intersect exactly if their
intersection has a member. Writing the union of two sets, each cell that there is
room for is written exactly once, and no other cell is written; the union is what
the cells hold, unless nothing has to be added, when it is the first set itself. -/
theorem operations_implement_sets (s t : SortedSet α) (x : α) (xs : List α) (f : β → SortedSet α)
    (ys : List β) :
    Lists (ofList xs).toList {a | a ∈ xs} ∧
    Lists (s.insert x).toList ({x} ∪ s.members) ∧
    Lists (s.erase x).toList (s.members \ {x}) ∧
    Lists (s.union t).toList (s.members ∪ t.members) ∧
    Lists (s.inter t).toList (s.members ∩ t.members) ∧
    Lists (unionMap f ys).toList (⋃ y ∈ ys, (f y).members) ∧
    (s.contains x = true ↔ x ∈ s.members) ∧
    (s.intersects t = true ↔ (s.members ∩ t.members).Nonempty) ∧
    (∀ cell, ((writes s.toList 0 t.toList).map Prod.snd).count cell =
      if cell < (blank s.toList t.toList).size then 1 else 0) ∧
    (¬ t.members ⊆ s.members → fill (blank s.toList t.toList) (writes s.toList 0 t.toList) =
      ((s.union t).toList.map some).toArray) ∧
    (t.members ⊆ s.members → s.union t = s) := by
  simp only [lists_iff]
  refine ⟨Set.ext fun a => mem_ofList, Set.ext fun a => mem_insert, Set.ext fun a => ?_,
    Set.ext fun a => mem_union, Set.ext fun a => mem_inter, Set.ext fun a => ?_, contains_iff,
    intersects_iff, count_writes _ _, fill_eq_of_not_subset, union_of_subset⟩
  · exact mem_erase.trans and_comm
  · rw [Set.mem_iUnion₂]
    exact mem_unionMap.trans (exists_congr fun y => exists_prop.symm)

/-- Two sets that share two members, and of which neither is part of the other. -/
theorem operations_implement_sets_overlapping :
    let s : SortedSet Nat := ofList [5, 1, 3]
    let t : SortedSet Nat := ofList [6, 3, 1, 3]
    Std.TransOrd Nat ∧ Std.LawfulEqOrd Nat ∧
      Lists (s.union t).toList (s.members ∪ t.members) ∧ (s.union t).toList = [1, 3, 5, 6] ∧
      (s.members ∩ t.members).Nonempty ∧
      writes s.toList 0 t.toList = [(1, 0), (3, 1), (5, 2), (6, 3)] ∧
      ∀ cell, ([0, 1, 2, 3].count cell) = if cell < 4 then 1 else 0 := by
  intro s t
  obtain ⟨-, -, -, hunion, -, -, -, hintersects, hcells, -, -⟩ :=
    operations_implement_sets s t 0 [] (fun _ : Nat => s) []
  exact ⟨inferInstance, inferInstance, hunion, by decide, hintersects.mp (by decide), by decide,
    hcells⟩

end SortedSet

end Typographical
