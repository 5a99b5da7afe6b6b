import Typographical.Proofs.Variants
import Typographical.Proofs.WellFormed

/-!
# Variables as in the textbook

The sets of free and of bound variables have a definition that follows the
formula and mentions no variables bound further up. Everything that can be asked
about the variables of a formula is compared with it, and with the places at which
free variables stand in the canonical text: a quantifier takes the places of its
variable away from those of its body, however often the variable is bound again
below it.

No formula is asked to be well quantified.
-/

namespace Typographical

/-- The name of a variable stands at place `i` of a text. -/
def Variable.StandsAt (v : Variable) (text : List Char) (i : Nat) : Prop :=
  ∃ before behind, text = before ++ (v.chars ++ behind) ∧ before.length = i

/-- Variables with the places at which they stand in a text that begins at
`start`, from left to right. -/
structure Listing (text : List Char) (start : Nat) (places : List (Nat × Variable)) : Prop where
  stand : ∀ p ∈ places, ∃ i, p.1 = start + i ∧ p.2.StandsAt text i
  ascending : places.Pairwise (fun p q => p.1 < q.1)

section

variable {v : Variable} {part left right : List Char} {start i : Nat}
  {places : List (Nat × Variable)}

theorem Variable.StandsAt.lt_length (h : v.StandsAt part i) : i < part.length := by
  obtain ⟨before, behind, rfl, rfl⟩ := h
  simp only [chars, List.length_append, List.length_cons]
  omega

theorem Variable.StandsAt.within (before behind : List Char) (h : v.StandsAt part i) :
    v.StandsAt (before ++ part ++ behind) (before.length + i) := by
  obtain ⟨before', behind', rfl, rfl⟩ := h
  exact ⟨before ++ before', behind' ++ behind, by simp, List.length_append⟩

namespace Listing

theorem nil (text : List Char) (start : Nat) : Listing text start [] :=
  ⟨fun _ hp => absurd hp List.not_mem_nil, List.Pairwise.nil⟩

theorem single (v : Variable) (start : Nat) : Listing v.chars start [(start, v)] := by
  refine ⟨?_, List.pairwise_singleton _ _⟩
  intro p hp
  obtain rfl := List.mem_singleton.mp hp
  exact ⟨0, rfl, [], [], (List.append_nil _).symm, rfl⟩

theorem within (before behind : List Char) (h : Listing part (start + before.length) places) :
    Listing (before ++ part ++ behind) start places := by
  refine ⟨?_, h.ascending⟩
  intro p hp
  obtain ⟨i, hi, hstands⟩ := h.stand p hp
  exact ⟨before.length + i, by omega, hstands.within before behind⟩

/-- What stands on the left stands before what stands on the right. -/
theorem join (middle : List Char) {places' : List (Nat × Variable)}
    (hl : Listing left start places)
    (hr : Listing right (start + left.length + middle.length) places') :
    Listing (left ++ middle ++ right) start (places ++ places') := by
  constructor
  · intro p hp
    rcases List.mem_append.mp hp with hp | hp
    · obtain ⟨i, hi, hstands⟩ := hl.stand p hp
      refine ⟨i, hi, ?_⟩
      simpa using hstands.within [] (middle ++ right)
    · obtain ⟨i, hi, hstands⟩ := hr.stand p hp
      refine ⟨(left ++ middle).length + i, by simp only [List.length_append]; omega, ?_⟩
      simpa using hstands.within (left ++ middle) []
  · refine List.pairwise_append.mpr ⟨hl.ascending, hr.ascending, ?_⟩
    intro p hp q hq
    obtain ⟨i, hi, hstands⟩ := hl.stand p hp
    obtain ⟨j, hj, -⟩ := hr.stand q hq
    have hlt := hstands.lt_length
    omega

theorem filter (keep : Nat × Variable → Bool) (h : Listing part start places) :
    Listing part start (places.filter keep) :=
  ⟨fun p hp => h.stand p (List.mem_of_mem_filter hp), h.ascending.filter keep⟩

end Listing

end

namespace Term

def varSet : Term → Set Variable
  | zero => ∅
  | var v => {v}
  | succ t => t.varSet
  | sum l r => l.varSet ∪ r.varSet
  | product l r => l.varSet ∪ r.varSet

/-- The variables of a term with the places at which they stand in a text where the
term begins at `start`. -/
def places : Term → Nat → List (Nat × Variable)
  | zero, _ => []
  | var v, start => [(start, v)]
  | succ t, start => t.places (start + 1)
  | sum l r, start => l.places (start + 1) ++ r.places (start + 1 + l.chars.length + 1)
  | product l r, start => l.places (start + 1) ++ r.places (start + 1 + l.chars.length + 1)

theorem mem_varSet_iff {t : Term} {v : Variable} : v ∈ t.varSet ↔ v ∈ t.occurrences := by
  induction t with
  | zero => simp [varSet, occurrences]
  | var w => simp [varSet, occurrences]
  | succ t ih => exact ih
  | sum l r ihl ihr => simp [varSet, occurrences, ihl, ihr]
  | product l r ihl ihr => simp [varSet, occurrences, ihl, ihr]

theorem map_snd_places (t : Term) (start : Nat) :
    (t.places start).map Prod.snd = t.occurrences := by
  induction t generalizing start with
  | zero => rfl
  | var v => rfl
  | succ t ih => exact ih (start + 1)
  | sum l r ihl ihr => simp only [places, occurrences, List.map_append, ihl, ihr]
  | product l r ihl ihr => simp only [places, occurrences, List.map_append, ihl, ihr]

theorem listing_places (t : Term) (start : Nat) : Listing t.chars start (t.places start) := by
  induction t generalizing start with
  | zero => exact .nil _ _
  | var v => exact .single v start
  | succ t ih => simpa [chars, places] using (ih (start + 1)).within ['S'] []
  | sum l r ihl ihr =>
    simpa [chars, places] using ((ihl (start + 1)).join ['+'] (ihr _)).within ['('] [')']
  | product l r ihl ihr =>
    simpa [chars, places] using ((ihl (start + 1)).join ['*'] (ihr _)).within ['('] [')']

end Term

namespace Formula

def freeSet : Formula → Set Variable
  | equality l r => l.varSet ∪ r.varSet
  | neg f => f.freeSet
  | binary _ l r => l.freeSet ∪ r.freeSet
  | quantified _ v f => f.freeSet \ {v}

def boundSet : Formula → Set Variable
  | equality _ _ => ∅
  | neg f => f.boundSet
  | binary _ l r => l.boundSet ∪ r.boundSet
  | quantified _ v f => insert v f.boundSet

/-- The free variables of a formula with the places at which they stand free in a
text where the formula begins at `start`. -/
def freePlaces : Formula → Nat → List (Nat × Variable)
  | equality l r, start => l.places start ++ r.places (start + l.chars.length + 1)
  | neg f, start => f.freePlaces (start + 1)
  | binary _ l r, start =>
    l.freePlaces (start + 1) ++ r.freePlaces (start + 1 + l.chars.length + 1)
  | quantified _ v f, start =>
    (f.freePlaces (start + 1 + v.chars.length + 1)).filter (fun p => p.2 ≠ v)

theorem mem_freeSet_iff {f : Formula} {v : Variable} : v ∈ f.freeSet ↔ v ∈ f.freeVars := by
  induction f with
  | equality l r => simp [freeSet, Term.mem_varSet_iff]
  | neg f ih => simpa [freeSet] using ih
  | binary op l r ihl ihr => simp [freeSet, ihl, ihr]
  | quantified q w f ih => simp [freeSet, ih, and_comm]

theorem mem_boundSet_iff {f : Formula} {v : Variable} : v ∈ f.boundSet ↔ v ∈ f.boundVars := by
  rw [mem_boundVars]
  induction f with
  | equality l r => simp [boundSet, quantifiedVars]
  | neg f ih => exact ih
  | binary op l r ihl ihr => simp [boundSet, quantifiedVars, ihl, ihr]
  | quantified q w f ih => simp [boundSet, quantifiedVars, ih]

theorem listing_freePlaces (f : Formula) (start : Nat) :
    Listing f.chars start (f.freePlaces start) := by
  induction f generalizing start with
  | equality l r =>
    simpa [chars, freePlaces] using (l.listing_places start).join ['='] (r.listing_places _)
  | neg f ih => simpa [chars, freePlaces] using (ih (start + 1)).within ['~'] []
  | binary op l r ihl ihr =>
    simpa [chars, freePlaces] using ((ihl (start + 1)).join [op.symbol] (ihr _)).within ['['] [']']
  | quantified q w f ih =>
    have h : Listing f.chars (start + (q.symbol :: w.chars ++ [':']).length)
        (f.freePlaces (start + 1 + w.chars.length + 1)) := by
      have hlen : start + (q.symbol :: w.chars ++ [':']).length =
          start + 1 + w.chars.length + 1 := by
        simp only [List.length_append, List.length_cons, List.length_nil]
        omega
      rw [hlen]
      exact ih _
    simpa [chars, freePlaces] using (h.filter (fun p => p.2 ≠ w)).within _ []

/-- Removing the variables bound further up all at once, or each one at its own
quantifier, leaves the same occurrences. -/
theorem freeOccurrences_eq (f : Formula) (bound : SortedSet Variable) (start : Nat) :
    f.freeOccurrences bound =
      ((f.freePlaces start).map Prod.snd).filter (fun v => !bound.contains v) := by
  induction f generalizing bound start with
  | equality l r =>
    rw [freeOccurrences, freePlaces, List.map_append, Term.map_snd_places, Term.map_snd_places]
  | neg f ih => exact ih bound (start + 1)
  | binary op l r ihl ihr =>
    rw [freeOccurrences, freePlaces, List.map_append, List.filter_append, ← ihl, ← ihr]
  | quantified q w f ih =>
    rw [freeOccurrences_quantified, ih _ (start + 1 + w.chars.length + 1), freePlaces,
      List.filter_map, List.filter_map, List.filter_filter]
    congr 1
    apply List.filter_congr
    intro p _
    by_cases hw : p.2 = w
    · simp [hw]
    · by_cases hb : p.2 ∈ bound
      · simp [SortedSet.contains_iff.mpr hb,
          SortedSet.contains_iff.mpr (SortedSet.mem_insert.mpr (Or.inr hb))]
      · have hnot : p.2 ∉ bound.insert w := by
          rw [SortedSet.mem_insert, not_or]
          exact ⟨hw, hb⟩
        simp [SortedSet.contains_eq_false_iff.mpr hb, SortedSet.contains_eq_false_iff.mpr hnot, hw]

theorem freeVarsInOrder_eq_places (f : Formula) :
    f.freeVarsInOrder = firstOccurrences ((f.freePlaces 0).map Prod.snd) := by
  rw [freeVarsInOrder, freeOccurrences_eq f ∅ 0, List.filter_eq_self.mpr]
  intro v _
  simp [SortedSet.contains_eq_false_iff.mpr (SortedSet.not_mem_empty v)]

end Formula

/-- The first of equal elements stands before all others that come later in the
list of first ones. -/
theorem pairwise_firstOccurrences {α : Type} [DecidableEq α] {ps : List (Nat × α)}
    (h : ps.Pairwise (fun p q => p.1 < q.1)) :
    (firstOccurrences (ps.map Prod.snd)).Pairwise
      (fun a b => ∃ i, (i, a) ∈ ps ∧ ∀ j, (j, b) ∈ ps → i < j) := by
  induction ps with
  | nil => exact List.Pairwise.nil
  | cons p ps ih =>
    obtain ⟨i, a⟩ := p
    obtain ⟨hfirst, hrest⟩ := List.pairwise_cons.mp h
    have hlater : ∀ b, b ≠ a → ∀ j, (j, b) ∈ (i, a) :: ps → (j, b) ∈ ps := by
      intro b hb j hj
      rcases List.mem_cons.mp hj with heq | hj
      · exact absurd (congrArg Prod.snd heq) hb
      · exact hj
    rw [List.map_cons, firstOccurrences, List.pairwise_cons, List.pairwise_filter]
    constructor
    · intro b hb
      have hb : b ≠ a := by simpa using (List.mem_filter.mp hb).2
      exact ⟨i, List.mem_cons_self, fun j hj => hfirst _ (hlater b hb j hj)⟩
    · refine (ih hrest).imp ?_
      rintro b c ⟨j, hj, hbefore⟩ - hc
      have hc : c ≠ a := by simpa using hc
      exact ⟨j, List.mem_cons_of_mem _ hj, fun k hk => hbefore k (hlater c hc k hk)⟩

namespace Formula

/-- All queries about the variables of a formula agree with the textbook. The free
variables are those of the recursion, and in order they are listed without
repetition, each one before those whose first free occurrence comes later in the
canonical text. A variable is contained if it is free or bound. Whenever the
check for well-quantified formulas succeeds, below whatever quantifiers, it has
computed the free and the bound variables. -/
theorem queries_agree (f : Formula) :
    ((∀ v, v ∈ f.freeVars ↔ v ∈ f.freeSet) ∧ ∀ v, v ∈ f.boundVars ↔ v ∈ f.boundSet) ∧
      (f.freeVarsInOrder.Nodup ∧ (∀ v, v ∈ f.freeVarsInOrder ↔ v ∈ f.freeVars) ∧
        (∀ v i, (i, v) ∈ f.freePlaces 0 → v.StandsAt f.chars i) ∧
        f.freeVarsInOrder.Pairwise (fun v w =>
          ∃ i, (i, v) ∈ f.freePlaces 0 ∧ ∀ j, (j, w) ∈ f.freePlaces 0 → i < j)) ∧
      (∀ v, (f.containsVar v = true ↔ v ∈ f.allVars) ∧
        (v ∈ f.allVars ↔ v ∈ f.freeSet ∨ v ∈ f.boundSet)) ∧
      ∀ path free bound, f.wellFormedBelow path = .ok (free, bound) →
        free = f.freeVars ∧ bound = f.boundVars := by
  refine ⟨⟨fun v => mem_freeSet_iff.symm, fun v => mem_boundSet_iff.symm⟩,
    ⟨f.nodup_freeVarsInOrder, fun v => mem_freeVarsInOrder, ?_, ?_⟩, ?_, ?_⟩
  · intro v i hv
    obtain ⟨j, hj, hstands⟩ := (f.listing_freePlaces 0).stand _ hv
    have hij : i = j := hj.trans (Nat.zero_add j)
    exact hij ▸ hstands
  · rw [freeVarsInOrder_eq_places]
    exact pairwise_firstOccurrences (f.listing_freePlaces 0).ascending
  · intro v
    rw [containsVar_iff, mem_freeSet_iff, mem_boundSet_iff, mem_boundVars, mem_allVars]
    exact ⟨Iff.rfl, Iff.rfl⟩
  · intro path free bound h
    exact (wellFormedBelow_eq_ok_iff.mp h).2.2

/-- A variable that is bound twice and free elsewhere, where it stands behind
another one. -/
theorem queries_agree_rebound :
    let a := Variable.austere 0
    let b := Variable.austere 1
    let f := and (forAll a (thereIs a (equality (.var a) (.var b)))) (equality (.var a) .zero)
    let g := thereIs a (equality (.var a) (.var b))
    f.freePlaces 0 = [(9, b), (12, a)] ∧ f.freeVarsInOrder = [b, a] ∧
      (∃ i, (i, b) ∈ f.freePlaces 0 ∧ ∀ j, (j, a) ∈ f.freePlaces 0 → i < j) ∧
      g.wellFormedBelow ∅ = .ok (.ofList [b], .ofList [a]) ∧
      SortedSet.ofList [b] = g.freeVars ∧ SortedSet.ofList [a] = g.boundVars := by
  intro a b f g
  have horder : f.freeVarsInOrder = [b, a] := by decide
  have hcheck : g.wellFormedBelow ∅ = .ok (.ofList [b], .ofList [a]) := by decide
  have hpairs := (queries_agree f).2.1.2.2.2
  rw [horder] at hpairs
  exact ⟨by decide, horder, (List.pairwise_cons.mp hpairs).1 a List.mem_cons_self, hcheck,
    (queries_agree g).2.2.2 ∅ _ _ hcheck⟩

end Formula

end Typographical
