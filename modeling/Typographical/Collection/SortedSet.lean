/-!
# Sorted sets

A finite set is kept as a strictly ascending array, so that two sets with the
same members are the same value and are listed in one order only. Members are
located by bisection; two sets are combined by walking both arrays once.

Nothing is claimed about running time. How many members two sets share is
counted before they are united: it tells how large the union will be, and a set
that would gain nothing is left as it is.
-/

namespace Typographical

universe u v

def Ascending {α : Type u} [Ord α] (xs : List α) : Prop :=
  xs.Pairwise (fun a b => compare a b = .lt)

/-- A finite set listed in strictly ascending order. -/
structure SortedSet (α : Type u) [Ord α] where
  elements : Array α
  ascending : Ascending elements.toList

namespace SortedSet

variable {α : Type u} [Ord α]

def toList (s : SortedSet α) : List α := s.elements.toList

instance : Membership α (SortedSet α) := ⟨fun s a => a ∈ s.toList⟩

theorem mem_def {s : SortedSet α} {a : α} : a ∈ s ↔ a ∈ s.toList := Iff.rfl

@[ext]
theorem ext_toList {s t : SortedSet α} (h : s.toList = t.toList) : s = t := by
  cases s with
  | mk xs hx =>
    cases t with
    | mk ys hy =>
      have : xs = ys := Array.ext' h
      subst this
      rfl

instance [DecidableEq α] : DecidableEq (SortedSet α) := fun s t =>
  if h : s.toList = t.toList then isTrue (ext_toList h)
  else isFalse (fun e => h (by rw [e]))

def ofAscending (xs : List α) (h : Ascending xs) : SortedSet α :=
  ⟨xs.toArray, h⟩

def empty : SortedSet α := ⟨#[], List.Pairwise.nil⟩

instance : EmptyCollection (SortedSet α) := ⟨empty⟩

instance : Inhabited (SortedSet α) := ⟨empty⟩

def size (s : SortedSet α) : Nat := s.elements.size

def isEmpty (s : SortedSet α) : Bool := s.size == 0

/-- Narrow the interval `[lo, hi)` to the first position whose element is not
below `x`. Every round at least halves the interval, so as many rounds as the
interval is long are enough. -/
def bisect (xs : Array α) (x : α) : Nat → Nat → Nat → Nat
  | 0, lo, _ => lo
  | rounds + 1, lo, hi =>
    if lo < hi then
      let middle := lo + (hi - lo) / 2
      if (xs[middle]?).any (fun y => compare y x == .lt) then
        bisect xs x rounds (middle + 1) hi
      else
        bisect xs x rounds lo middle
    else lo

/-- The position at which `x` is, or would have to be inserted. -/
def position (s : SortedSet α) (x : α) : Nat :=
  bisect s.elements x s.elements.size 0 s.elements.size

/-- What bisection keeps true of its interval: below it everything is less than
the element sought, and from its end on nothing is. -/
structure Narrowed (xs : Array α) (x : α) (lo hi : Nat) : Prop where
  ordered : lo ≤ hi
  bounded : hi ≤ xs.size
  below : ∀ i (h : i < xs.size), i < lo → compare xs[i] x = .lt
  above : ∀ i (h : i < xs.size), hi ≤ i → compare xs[i] x ≠ .lt

theorem lt_of_ascending {xs : Array α} (hs : Ascending xs.toList) {i j : Nat}
    (hij : i < j) (hj : j < xs.size) : compare xs[i] xs[j] = .lt := by
  have := List.pairwise_iff_getElem.mp hs i j (by simpa using Nat.lt_trans hij hj)
    (by simpa using hj) hij
  simpa using this

theorem Narrowed.bisect [Std.TransOrd α] {xs : Array α} (hs : Ascending xs.toList) (x : α) :
    ∀ (rounds lo hi : Nat), hi - lo ≤ rounds → Narrowed xs x lo hi →
      Narrowed xs x (SortedSet.bisect xs x rounds lo hi) (SortedSet.bisect xs x rounds lo hi) := by
  intro rounds
  induction rounds with
  | zero =>
    intro lo hi hr h
    have : hi = lo := by have := h.ordered; omega
    subst this
    exact h
  | succ rounds ih =>
    intro lo hi hr h
    unfold SortedSet.bisect
    split
    · next hlt =>
      have hm : lo + (hi - lo) / 2 < xs.size := by have := h.bounded; omega
      simp only [Array.getElem?_eq_getElem hm, Option.any_some]
      split
      · next hcmp =>
        have hcmp : compare xs[lo + (hi - lo) / 2] x = .lt := by simpa using hcmp
        refine ih _ _ (by omega) ⟨by omega, h.bounded, fun i hi' hlt' => ?_, h.above⟩
        rcases Nat.lt_or_eq_of_le (Nat.le_of_lt_succ hlt') with hlt'' | heq
        · exact Std.TransCmp.lt_trans (lt_of_ascending hs hlt'' hm) hcmp
        · subst heq
          exact hcmp
      · next hcmp =>
        have hcmp : compare xs[lo + (hi - lo) / 2] x ≠ .lt := by simpa using hcmp
        refine ih _ _ (by omega) ⟨by omega, by omega, h.below, fun i hi' hle => ?_⟩
        rcases Nat.lt_or_eq_of_le hle with hlt' | heq
        · exact fun hx => hcmp (Std.TransCmp.lt_trans (lt_of_ascending hs hlt' hi') hx)
        · subst heq
          exact hcmp
    · have : hi = lo := by have := h.ordered; omega
      subst this
      exact h

theorem narrowed_position [Std.TransOrd α] (s : SortedSet α) (x : α) :
    Narrowed s.elements x (s.position x) (s.position x) :=
  Narrowed.bisect s.ascending x _ _ _ (by omega)
    ⟨by omega, by omega, fun _ _ h => by omega, fun _ h h' => by omega⟩

/-- Whether `x` stands at the position at which bisection looks for it. -/
def contains (s : SortedSet α) (x : α) : Bool :=
  (s.elements[s.position x]?).any (fun y => compare y x == .eq)

theorem ascending_insert [Std.TransOrd α] (s : SortedSet α) (x : α)
    (h : s.contains x = false) :
    Ascending (s.toList.take (s.position x) ++ x :: s.toList.drop (s.position x)) := by
  have hn := s.narrowed_position x
  have hs : Ascending s.toList := s.ascending
  have below : ∀ a ∈ s.toList.take (s.position x), compare a x = .lt := by
    intro a ha
    obtain ⟨i, hi, rfl⟩ := List.mem_iff_getElem.mp ha
    rw [List.getElem_take]
    simp only [List.length_take] at hi
    exact hn.below i (by simp only [toList, Array.length_toList] at hi; omega) (by omega)
  have above : ∀ a ∈ s.toList.drop (s.position x), compare x a = .lt := by
    intro a ha
    obtain ⟨i, hi, rfl⟩ := List.mem_iff_getElem.mp ha
    rw [List.getElem_drop]
    have hpos : s.position x < s.elements.size := by
      simp only [toList, List.length_drop, Array.length_toList] at hi
      omega
    have hfirst : compare x s.elements[s.position x] = .lt := by
      have hne : compare s.elements[s.position x] x ≠ .eq := by
        intro he
        simp [contains, Array.getElem?_eq_getElem hpos, he] at h
      have hnl := hn.above _ hpos (Nat.le_refl _)
      rw [← Std.OrientedCmp.gt_iff_lt]
      cases hc : compare s.elements[s.position x] x with
      | lt => exact absurd hc hnl
      | eq => exact absurd hc hne
      | gt => rfl
    have hidx : s.position x + i < s.elements.size := by
      simp only [toList, List.length_drop, Array.length_toList] at hi
      omega
    rcases Nat.eq_zero_or_pos i with hz | hp
    · subst hz
      exact hfirst
    · exact Std.TransCmp.lt_trans hfirst
        (lt_of_ascending s.ascending (show s.position x < s.position x + i by omega) hidx)
  refine List.pairwise_append.mpr ⟨hs.sublist (List.take_sublist _ _),
    List.pairwise_cons.mpr ⟨above, hs.sublist (List.drop_sublist _ _)⟩, ?_⟩
  intro a ha b hb
  rcases List.mem_cons.mp hb with rfl | hb
  · exact below a ha
  · exact Std.TransCmp.lt_trans (below a ha) (above b hb)

/-- Add a member; one that is there already changes nothing. -/
def insert [Std.TransOrd α] (s : SortedSet α) (x : α) : SortedSet α :=
  if h : s.contains x = false then
    ofAscending (s.toList.take (s.position x) ++ x :: s.toList.drop (s.position x))
      (s.ascending_insert x h)
  else s

theorem insert_of_contains [Std.TransOrd α] {s : SortedSet α} {x : α} (h : s.contains x = true) :
    s.insert x = s := dif_neg (by simp [h])

/-- Remove a member; one that is not there changes nothing. -/
def erase (s : SortedSet α) (x : α) : SortedSet α :=
  if s.contains x then
    ofAscending (s.toList.eraseIdx (s.position x))
      (s.ascending.sublist (List.eraseIdx_sublist _ _))
  else s

def ofList [Std.TransOrd α] (xs : List α) : SortedSet α :=
  xs.foldl insert empty

/-- Go on merging after the elements `x :: xs`, where `rest` merges `xs`. -/
def mergeFrom (x : α) (xs : List α) (rest : List α → List α) : List α → List α
  | [] => x :: xs
  | y :: ys =>
    match compare x y with
    | .lt => x :: rest (y :: ys)
    | .gt => y :: mergeFrom x xs rest ys
    | .eq => x :: rest ys

def merge : List α → List α → List α
  | [], ys => ys
  | x :: xs, ys => mergeFrom x xs (merge xs) ys

def intersectFrom (x : α) (rest : List α → List α) : List α → List α
  | [] => []
  | y :: ys =>
    match compare x y with
    | .lt => rest (y :: ys)
    | .gt => intersectFrom x rest ys
    | .eq => x :: rest ys

def intersect : List α → List α → List α
  | [], _ => []
  | x :: xs, ys => intersectFrom x (intersect xs) ys

def countCommonFrom (x : α) (rest : List α → Nat) : List α → Nat
  | [] => 0
  | y :: ys =>
    match compare x y with
    | .lt => rest (y :: ys)
    | .gt => countCommonFrom x rest ys
    | .eq => rest ys + 1

def countCommon : List α → List α → Nat
  | [], _ => 0
  | x :: xs, ys => countCommonFrom x (countCommon xs) ys

theorem mem_of_mem_merge : ∀ {xs ys : List α} {a : α}, a ∈ merge xs ys → a ∈ xs ∨ a ∈ ys := by
  intro xs
  induction xs with
  | nil => intro ys a h; exact Or.inr h
  | cons x xs ih =>
    intro ys
    induction ys with
    | nil => intro a h; exact Or.inl h
    | cons y ys ihy =>
      intro a h
      simp only [merge, mergeFrom] at h ihy
      split at h
      · rcases List.mem_cons.mp h with rfl | h
        · exact Or.inl (List.mem_cons_self ..)
        · exact (ih h).imp (List.mem_cons_of_mem _) id
      · rcases List.mem_cons.mp h with rfl | h
        · exact Or.inr (List.mem_cons_self ..)
        · exact (ihy h).imp id (List.mem_cons_of_mem _)
      · rcases List.mem_cons.mp h with rfl | h
        · exact Or.inl (List.mem_cons_self ..)
        · exact (ih h).imp (List.mem_cons_of_mem _) (List.mem_cons_of_mem _)

theorem ascending_merge [Std.TransOrd α] [Std.LawfulEqOrd α] :
    ∀ {xs ys : List α}, Ascending xs → Ascending ys → Ascending (merge xs ys) := by
  intro xs
  induction xs with
  | nil => intro ys _ h; exact h
  | cons x xs ih =>
    intro ys hx
    induction ys with
    | nil => intro _; exact hx
    | cons y ys ihy =>
      intro hy
      have hx' := List.pairwise_cons.mp hx
      have hy' := List.pairwise_cons.mp hy
      simp only [merge, mergeFrom] at ihy ⊢
      split
      · next hc =>
        refine List.pairwise_cons.mpr ⟨fun a ha => ?_, ih hx'.2 hy⟩
        rcases mem_of_mem_merge ha with h | h
        · exact hx'.1 a h
        · rcases List.mem_cons.mp h with rfl | h
          · exact hc
          · exact Std.TransCmp.lt_trans hc (hy'.1 a h)
      · next hc =>
        have hc := Std.OrientedCmp.gt_iff_lt.mp hc
        refine List.pairwise_cons.mpr ⟨fun a ha => ?_, ihy hy'.2⟩
        have ha : a ∈ x :: xs ∨ _ := mem_of_mem_merge ha
        rcases ha with h | h
        · rcases List.mem_cons.mp h with rfl | h
          · exact hc
          · exact Std.TransCmp.lt_trans hc (hx'.1 a h)
        · exact hy'.1 a h
      · next hc =>
        have hc := Std.LawfulEqCmp.eq_of_compare hc
        subst hc
        refine List.pairwise_cons.mpr ⟨fun a ha => ?_, ih hx'.2 hy'.2⟩
        rcases mem_of_mem_merge ha with h | h
        · exact hx'.1 a h
        · exact hy'.1 a h

theorem intersect_sublist : ∀ (xs ys : List α), (intersect xs ys).Sublist xs := by
  intro xs
  induction xs with
  | nil => intro ys; exact List.Sublist.refl _
  | cons x xs ih =>
    intro ys
    induction ys with
    | nil => exact List.nil_sublist _
    | cons y ys ihy =>
      simp only [intersect, intersectFrom] at ihy ⊢
      split
      · exact (ih _).trans (List.sublist_cons_self _ _)
      · exact ihy
      · exact (ih _).cons_cons _

def writesFrom (x : α) (xs : List α) (rest : Nat → List α → List (α × Nat)) :
    Nat → List α → List (α × Nat)
  | k, [] => (x :: xs).zipIdx k
  | k, y :: ys =>
    match compare x y with
    | .lt => (x, k) :: rest (k + 1) (y :: ys)
    | .gt => (y, k) :: writesFrom x xs rest (k + 1) ys
    | .eq => (x, k) :: rest (k + 1) ys

/-- What is written to merge two ascending lists, each time with the cell, from
cell `k` on. What is left of one list when the other one ends is copied. -/
def writes : List α → Nat → List α → List (α × Nat)
  | [], k, ys => ys.zipIdx k
  | x :: xs, k, ys => writesFrom x xs (writes xs) k ys

/-- Write into cells one after the other. What is written behind the last cell is
lost. -/
def fill (cells : Array (Option α)) (ws : List (α × Nat)) : Array (Option α) :=
  ws.foldl (fun cells w => cells.setIfInBounds w.2 (some w.1)) cells

/-- Nothing is written yet into as many cells as the union of two ascending lists
has members. -/
def blank (xs ys : List α) : Array (Option α) :=
  Array.replicate (xs.length + ys.length - countCommon xs ys) none

def held (cells : Array (Option α)) : List α := cells.toList.filterMap id

theorem writes_eq (xs ys : List α) (k : Nat) : writes xs k ys = (merge xs ys).zipIdx k := by
  induction xs generalizing ys k with
  | nil => rfl
  | cons x xs ih =>
    induction ys generalizing k with
    | nil => rfl
    | cons y ys ihy =>
      simp only [writes, merge, writesFrom, mergeFrom] at ihy ⊢
      split
      · rw [ih, List.zipIdx_cons]
      · rw [ihy, List.zipIdx_cons]
      · rw [ih, List.zipIdx_cons]

theorem length_merge (xs ys : List α) :
    (merge xs ys).length + countCommon xs ys = xs.length + ys.length := by
  induction xs generalizing ys with
  | nil => simp [merge, countCommon]
  | cons x xs ih =>
    induction ys with
    | nil => rfl
    | cons y ys ihy =>
      simp only [merge, mergeFrom, countCommon, countCommonFrom, List.length_cons] at ihy ih ⊢
      split
      · have := ih (y :: ys)
        simp only [List.length_cons] at this ⊢
        omega
      · simp only [List.length_cons]
        omega
      · have := ih ys
        simp only [List.length_cons]
        omega

theorem blank_eq (xs ys : List α) : blank xs ys = Array.replicate (merge xs ys).length none := by
  have := length_merge xs ys
  rw [blank]
  congr 1
  omega

omit [Ord α] in
/-- As many cells as there are elements, all of them behind cells that are
written already, are written one after the other. -/
theorem fill_zipIdx (done : List (Option α)) (xs : List α) :
    fill (done ++ List.replicate xs.length none).toArray (xs.zipIdx done.length) =
      (done ++ xs.map some).toArray := by
  induction xs generalizing done with
  | nil => rfl
  | cons x xs ih =>
    have hstep : (done ++ List.replicate (x :: xs).length none).toArray.setIfInBounds
        done.length (some x) = ((done ++ [some x]) ++ List.replicate xs.length none).toArray := by
      simp [List.replicate_succ]
    have hlater := ih (done ++ [some x])
    rw [← hstep, List.length_append] at hlater
    rw [List.zipIdx_cons, fill, List.foldl_cons]
    simpa [fill] using hlater

theorem fill_blank (xs ys : List α) :
    fill (blank xs ys) (writes xs 0 ys) = ((merge xs ys).map some).toArray := by
  rw [writes_eq, blank_eq, ← List.toArray_replicate]
  exact fill_zipIdx [] (merge xs ys)

theorem held_fill (xs ys : List α) : held (fill (blank xs ys) (writes xs 0 ys)) = merge xs ys := by
  simp [held, fill_blank]

variable [Std.TransOrd α] [Std.LawfulEqOrd α]

/-- Add every member of `t` to `s`; nothing is rebuilt if all are there already. -/
def union (s t : SortedSet α) : SortedSet α :=
  if countCommon s.toList t.toList = t.size then s
  else
    ofAscending (held (fill (blank s.toList t.toList) (writes s.toList 0 t.toList))) (by
      rw [held_fill]
      exact ascending_merge s.ascending t.ascending)

def inter (s t : SortedSet α) : SortedSet α :=
  ofAscending (intersect s.toList t.toList)
    (s.ascending.sublist (intersect_sublist s.toList t.toList))

def intersects (s t : SortedSet α) : Bool :=
  0 < countCommon s.toList t.toList

def unionMap {β : Type v} (f : β → SortedSet α) (xs : List β) : SortedSet α :=
  xs.foldl (fun s x => s.union (f x)) empty

end SortedSet

namespace SortedSet

variable {α : Type u} [Ord α]

def text [ToString α] (s : SortedSet α) : String :=
  "\x7b" ++ String.intercalate "," (s.toList.map toString) ++ "\x7d"

instance [ToString α] : ToString (SortedSet α) := ⟨text⟩

end SortedSet

end Typographical
