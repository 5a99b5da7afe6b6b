import Mathlib.Order.Nat
import Typographical.Proofs.Deduction

/-!
# Blocks of a log

The theorems under one supposition stand together. Read from its beginning, a
log is in one of two states, outside of suppositions or under the one that
began at a certain theorem, and the theorem that comes next can only keep the
state, open a supposition or close the one that is open. This is what every
move preserves; the stack of scopes holds the state at the end of the log.

From the order of neighbours it follows what the whole log looks like. The
theorems under suppositions form blocks, each block names its first theorem,
and behind every block but an open one stands the implication that closed it.
-/

namespace Typographical

namespace Deduction

/-- Where the supposition begins under which the theorem before number `k`
stands, if there is such a theorem and it stands under one. -/
def scopeBefore (d : Deduction) : Nat → Option Nat
  | 0 => none
  | k + 1 =>
    match d.steps[k]? with
    | some s => if s.depth = 0 then none else some s.scopeStart
    | none => none

/-- A theorem with number `k` that may come after one under the given
supposition. -/
inductive Placed (d : Deduction) (k : Nat) : Option Nat → Step → Prop
  | outside {f : Formula} {j : Justification} : Placed d k none ⟨f, j, 0, 0⟩
  | opening {f : Formula} {j : Justification} : Placed d k none ⟨f, j, 1, k⟩
  | inside {f : Formula} {j : Justification} {origin : Nat} :
      Placed d k (some origin) ⟨f, j, 1, origin⟩
  | closing {origin : Nat} {premise last : Step} (first : d.steps[origin]? = some premise)
      (final : d.steps[k - 1]? = some last) :
      Placed d k (some origin)
        ⟨.implies premise.formula last.formula, .discharged origin (k - 1), 0, 0⟩

/-- Every theorem may come after the one before it, and the stack of scopes
tells what the next one will come after. -/
structure Scoped (d : Deduction) : Prop where
  placed : ∀ k s, d.steps[k]? = some s → d.Placed k (d.scopeBefore k) s
  current : d.scopes.items = (d.scopeBefore d.size).toList

variable {d d' : Deduction} {f : Formula} {k first last origin : Nat} {s : Step}

theorem exists_step (h : k < d.size) : ∃ s, d.steps[k]? = some s :=
  ⟨_, List.getElem?_eq_getElem h⟩

theorem lt_size (h : d.steps[k]? = some s) : k < d.size :=
  (List.getElem?_eq_some_iff.mp h).1

theorem scopeBefore_succ (h : d.steps[k]? = some s) :
    d.scopeBefore (k + 1) = if s.depth = 0 then none else some s.scopeStart := by
  rw [scopeBefore, h]

section Extended

variable {scopes : Stack Nat} {j : Justification}

theorem scopeBefore_extended (h : k ≤ d.size) :
    (d.extended scopes f j).scopeBefore k = d.scopeBefore k := by
  cases k with
  | zero => rfl
  | succ k =>
    obtain ⟨s, hs⟩ := exists_step h
    rw [scopeBefore_succ hs, scopeBefore_succ (getElem?_steps_extended.mpr (Or.inl hs))]

/-- What comes before a theorem is not changed by adding another one. -/
theorem Placed.extended {before : Option Nat} (h : d.Placed k before s) :
    (d.extended scopes f j).Placed k before s := by
  cases h with
  | outside => exact .outside
  | opening => exact .opening
  | inside => exact .inside
  | closing first final =>
    exact .closing (getElem?_steps_extended.mpr (Or.inl first))
      (getElem?_steps_extended.mpr (Or.inl final))

/-- Only the new theorem needs to be looked at. -/
theorem Scoped.extended (h : d.Scoped)
    (hplaced : d.Placed d.size (d.scopeBefore d.size)
      ⟨f, j, scopes.size, scopes.items.headD 0⟩)
    (hitems : scopes.items.length ≤ 1) : (d.extended scopes f j).Scoped := by
  refine ⟨?_, ?_⟩
  · intro k s hs
    have hlt := lt_size hs
    rw [size_extended] at hlt
    rw [scopeBefore_extended (by omega)]
    rcases getElem?_steps_extended.mp hs with hs | ⟨rfl, rfl⟩
    · exact (h.placed k s hs).extended
    · exact hplaced.extended
  · have hlast : (d.extended scopes f j).steps[d.size]? =
        some ⟨f, j, scopes.size, scopes.items.headD 0⟩ :=
      getElem?_steps_extended.mpr (Or.inr ⟨rfl, rfl⟩)
    rw [size_extended, scopeBefore_succ hlast]
    change scopes.items = _
    cases hi : scopes.items with
    | nil => simp [Stack.size, hi]
    | cons origin rest =>
      rw [hi, List.length_cons] at hitems
      have hrest : rest = [] := List.eq_nil_of_length_eq_zero (by omega)
      simp [Stack.size, hi, hrest]

end Extended

theorem Closed.scopeBefore_size (hc : d.Closed) (h : d.Scoped) : d.scopeBefore d.size = none := by
  have hcurrent := h.current
  rw [hc] at hcurrent
  exact Option.toList_eq_nil_iff.mp hcurrent.symm

theorem OpenAt.scopeBefore_size (ho : d.OpenAt origin) (h : d.Scoped) :
    d.scopeBefore d.size = some origin := by
  have hcurrent := h.current
  rw [ho.scopes] at hcurrent
  exact Option.toList_eq_singleton_iff.mp hcurrent.symm

/-- A theorem that leaves the scopes as they are stays in the state of the log. -/
theorem Scoped.extended_same (h : d.Scoped) (hc : d.Coherent) (f : Formula)
    (j : Justification) : (d.extended d.scopes f j).Scoped := by
  rcases hc with hc | ⟨origin, ho⟩
  · have hempty : d.scopes = .bounded maxDepth := hc
    refine h.extended ?_ (by rw [hempty]; exact Nat.zero_le 1)
    rw [hc.scopeBefore_size h, hempty]
    exact .outside
  · refine h.extended ?_ (by rw [ho.scopes]; exact Nat.le_refl 1)
    rw [ho.scopeBefore_size h, ho.scopes]
    exact .inside

theorem Granted.scoped {m : Move} (hc : d.Coherent) (h : d.Scoped) (hm : d.Granted m f d') :
    d'.Scoped := by
  cases hm with
  | postulated found wellFormed => exact h.extended_same hc _ _
  | supposed closed wellFormed =>
    refine h.extended ?_ (Nat.le_refl 1)
    rw [closed.scopeBefore_size h]
    exact .opening
  | discharged opened first final wellFormed =>
    refine h.extended ?_ (Nat.zero_le 1)
    rw [opened.scopeBefore_size h]
    exact .closing first final
  | inferred follows wellFormed => exact h.extended_same hc _ _

theorem scoped_start (title : String) (axioms : List Formula) : (start title axioms).Scoped := by
  refine ⟨?_, rfl⟩
  intro k s hs
  cases hs

theorem scoped_run (title : String) (axioms : List Formula) (moves : List Move) :
    ((start title axioms).run moves).Coherent ∧ ((start title axioms).run moves).Scoped :=
  run_induction (scoped_start title axioms) (fun _ _ _ _ hc h hm => hm.scoped hc h) moves

def Under (d : Deduction) (k : Nat) : Prop := ∃ s, d.steps[k]? = some s ∧ s.depth = 1

/-- The theorems from number `first` to number `last` stand under suppositions,
and their neighbours do not. -/
structure Block (d : Deduction) (first last : Nat) : Prop where
  ordered : first ≤ last
  under : ∀ k, first ≤ k → k ≤ last → d.Under k
  before : ∀ k, k + 1 = first → ¬ d.Under k
  after : ¬ d.Under (last + 1)

/-- A block that reaches to the end of the log and whose first theorem is on the
stack. -/
def OpenBlock (d : Deduction) (first last : Nat) : Prop :=
  d.Block first last ∧ d.scopes.items = [first] ∧ last + 1 = d.size

/-- A block behind which its first theorem implies its last one. -/
def ClosedBlock (d : Deduction) (first last : Nat) : Prop :=
  d.Block first last ∧ ∃ premise final, d.steps[first]? = some premise ∧
    d.steps[last]? = some final ∧ d.steps[last + 1]? =
      some ⟨.implies premise.formula final.formula, .discharged first last, 0, 0⟩

theorem Under.lt_size (h : d.Under k) : k < d.size := by
  obtain ⟨s, hs, -⟩ := h
  exact Deduction.lt_size hs

theorem exists_first (h : d.Under k) : ∃ first, first ≤ k ∧
    (∀ i, first ≤ i → i ≤ k → d.Under i) ∧ ∀ i, i + 1 = first → ¬ d.Under i := by
  induction k with
  | zero =>
    refine ⟨0, Nat.le_refl 0, ?_, by omega⟩
    intro i _ hi
    rwa [Nat.le_zero.mp hi]
  | succ k ih =>
    by_cases hk : d.Under k
    · obtain ⟨first, hle, hunder, hbefore⟩ := ih hk
      refine ⟨first, by omega, ?_, hbefore⟩
      intro i hfirst hi
      rcases Nat.le_succ_iff.mp hi with hi | rfl
      · exact hunder i hfirst hi
      · exact h
    · refine ⟨k + 1, Nat.le_refl _, ?_, ?_⟩
      · intro i hfirst hi
        rwa [Nat.le_antisymm hi hfirst]
      · intro i hi
        rwa [Nat.succ.inj hi]

/-- The log ends, so the theorems under suppositions do, too. -/
theorem exists_last (h : d.Under k) : ∃ last, k ≤ last ∧
    (∀ i, k ≤ i → i ≤ last → d.Under i) ∧ ¬ d.Under (last + 1) := by
  have hstop : ∃ n, k ≤ n ∧ ¬ d.Under n :=
    ⟨d.size, Nat.le_of_lt h.lt_size, fun hu => Nat.lt_irrefl _ hu.lt_size⟩
  classical
  obtain ⟨n, ⟨hkn, hn⟩, hmin⟩ := Nat.findX hstop
  have hne : n ≠ k := by
    rintro rfl
    exact hn h
  refine ⟨n - 1, by omega, ?_, ?_⟩
  · intro i hki hi
    by_contra hu
    exact hmin i (by omega) ⟨hki, hu⟩
  · rwa [Nat.sub_add_cancel (by omega)]

theorem exists_block (h : d.Under k) : ∃ first last, d.Block first last ∧ first ≤ k ∧ k ≤ last := by
  obtain ⟨first, hfirst, hleft, hbefore⟩ := exists_first h
  obtain ⟨last, hlast, hright, hafter⟩ := exists_last h
  refine ⟨first, last, ⟨by omega, ?_, hbefore, hafter⟩, hfirst, hlast⟩
  intro i hi hil
  by_cases hik : i ≤ k
  · exact hleft i hi hik
  · exact hright i (by omega) hil

/-- Two blocks with a common theorem are the same. -/
theorem Block.unique {first' last' : Nat} (h : d.Block first last) (h' : d.Block first' last')
    (hk : first ≤ k ∧ k ≤ last) (hk' : first' ≤ k ∧ k ≤ last') :
    first = first' ∧ last = last' := by
  constructor
  · rcases Nat.lt_trichotomy first first' with hlt | heq | hgt
    · exact absurd (h.under (first' - 1) (by omega) (by omega)) (h'.before _ (by omega))
    · exact heq
    · exact absurd (h'.under (first - 1) (by omega) (by omega)) (h.before _ (by omega))
  · rcases Nat.lt_trichotomy last last' with hlt | heq | hgt
    · exact absurd (h'.under (last + 1) (by omega) (by omega)) h.after
    · exact heq
    · exact absurd (h.under (last' + 1) (by omega) (by omega)) h'.after

theorem Scoped.depth (h : d.Scoped) (hs : d.steps[k]? = some s) :
    s.depth = 0 ∧ s.scopeStart = 0 ∨ s.depth = 1 := by
  have hplaced := h.placed k s hs
  generalize d.scopeBefore k = before at hplaced
  cases hplaced with
  | outside => exact Or.inl ⟨rfl, rfl⟩
  | opening => exact Or.inr rfl
  | inside => exact Or.inr rfl
  | closing => exact Or.inl ⟨rfl, rfl⟩

/-- Nothing is under a supposition before the first theorem of a block. -/
theorem Scoped.scopeBefore_first (h : d.Scoped) (hb : d.Block first last) :
    d.scopeBefore first = none := by
  cases first with
  | zero => rfl
  | succ k =>
    have hlt := (hb.under (k + 1) (Nat.le_refl _) hb.ordered).lt_size
    obtain ⟨s, hs⟩ := exists_step (Nat.lt_of_succ_lt hlt)
    rcases h.depth hs with ⟨hdepth, -⟩ | hdepth
    · rw [scopeBefore_succ hs, if_pos hdepth]
    · exact absurd ⟨s, hs, hdepth⟩ (hb.before k rfl)

/-- The first theorem of a block opens a supposition, and each of the others
stays under it. -/
theorem Scoped.scopeStart_eq (h : d.Scoped) (hb : d.Block first last) (hfirst : first ≤ k)
    (hlast : k ≤ last) (hs : d.steps[k]? = some s) : s.scopeStart = first := by
  induction k, hfirst using Nat.le_induction generalizing s with
  | base =>
    obtain ⟨s', hs', hdepth⟩ := hb.under first (Nat.le_refl _) hlast
    cases hs.symm.trans hs'
    have hplaced := h.placed first s hs
    rw [h.scopeBefore_first hb] at hplaced
    cases hplaced with
    | outside => cases hdepth
    | opening => rfl
  | succ k hk ih =>
    obtain ⟨p, hp, hpdepth⟩ := hb.under k hk (by omega)
    obtain ⟨s', hs', hdepth⟩ := hb.under (k + 1) (by omega) hlast
    cases hs.symm.trans hs'
    have hplaced := h.placed (k + 1) s hs
    rw [scopeBefore_succ hp, if_neg (by omega), ih (by omega) hp] at hplaced
    cases hplaced with
    | inside => rfl
    | closing => cases hdepth

theorem Scoped.scopeBefore_last (h : d.Scoped) (hb : d.Block first last) :
    d.scopeBefore (last + 1) = some first := by
  obtain ⟨s, hs, hdepth⟩ := hb.under last hb.ordered (Nat.le_refl _)
  rw [scopeBefore_succ hs, if_neg (by omega), h.scopeStart_eq hb hb.ordered (Nat.le_refl _) hs]

theorem Scoped.open_or_closed (h : d.Scoped) (hb : d.Block first last) :
    d.OpenBlock first last ∨ d.ClosedBlock first last := by
  have hlt := (hb.under last hb.ordered (Nat.le_refl _)).lt_size
  rcases Nat.lt_or_ge (last + 1) d.size with hinside | hend
  · obtain ⟨s, hs⟩ := exists_step hinside
    have hplaced := h.placed (last + 1) s hs
    rw [h.scopeBefore_last hb] at hplaced
    cases hplaced with
    | inside => exact absurd ⟨_, hs, rfl⟩ hb.after
    | closing hpremise hfinal => exact Or.inr ⟨hb, _, _, hpremise, hfinal, hs⟩
  · have hsize : last + 1 = d.size := by omega
    refine Or.inl ⟨hb, ?_, hsize⟩
    rw [h.current, ← hsize, h.scopeBefore_last hb]
    rfl

theorem OpenBlock.not_closed (h : d.OpenBlock first last) : ¬ d.ClosedBlock first last := by
  rintro ⟨-, premise, final, -, -, hnext⟩
  have hlt := lt_size hnext
  have hsize := h.2.2
  omega

/-- If the stack is not empty, the last theorem stands under a supposition, and
its block is open. -/
theorem Scoped.exists_openBlock (h : d.Scoped) (hitems : d.scopes.items ≠ []) :
    ∃ first last, d.OpenBlock first last := by
  have hcurrent := h.current
  cases hsize : d.size with
  | zero =>
    rw [hsize] at hcurrent
    exact absurd hcurrent hitems
  | succ k =>
    obtain ⟨s, hs⟩ := exists_step (d := d) (k := k) (by omega)
    rcases h.depth hs with ⟨hdepth, -⟩ | hdepth
    · rw [hsize, scopeBefore_succ hs, if_pos hdepth] at hcurrent
      exact absurd hcurrent hitems
    · obtain ⟨first, last, hb, -, hk⟩ := exists_block ⟨s, hs, hdepth⟩
      have hlast := (hb.under last hb.ordered (Nat.le_refl _)).lt_size
      rcases h.open_or_closed hb with ho | ⟨-, _, _, -, -, hnext⟩
      · exact ⟨first, last, ho⟩
      · have := lt_size hnext
        omega

/-- At every time the theorems under suppositions form blocks. Each block names
its first theorem and is either open, and then on the stack and at the end of
the log, or closed by the implication behind it. -/
theorem log_in_blocks (title : String) (axioms : List Formula) (moves : List Move) :
    let d := (start title axioms).run moves
    d.scopes.size ≤ 1 ∧
    (∀ s ∈ d.steps, s.depth = 0 ∧ s.scopeStart = 0 ∨ s.depth = 1) ∧
    (∀ k, d.Under k →
      ∃! block : Nat × Nat, d.Block block.1 block.2 ∧ block.1 ≤ k ∧ k ≤ block.2) ∧
    (∀ first last, d.Block first last →
      (∀ k s, first ≤ k → k ≤ last → d.steps[k]? = some s → s.scopeStart = first) ∧
      Xor (d.OpenBlock first last) (d.ClosedBlock first last)) ∧
    (d.scopes.items = [] ↔ ∀ first last, ¬ d.OpenBlock first last) := by
  intro d
  have h : d.Scoped := (scoped_run title axioms moves).2
  refine ⟨?_, ?_, ?_, ?_, ?_⟩
  · rw [Stack.size, h.current]
    exact Option.length_toList_le
  · intro s hs
    obtain ⟨k, hk⟩ := List.getElem?_of_mem hs
    exact h.depth hk
  · intro k hk
    obtain ⟨first, last, hb, hfirst, hlast⟩ := exists_block hk
    refine ⟨(first, last), ⟨hb, hfirst, hlast⟩, ?_⟩
    rintro ⟨first', last'⟩ ⟨hb', hk'⟩
    obtain ⟨rfl, rfl⟩ := hb.unique hb' ⟨hfirst, hlast⟩ hk'
    rfl
  · intro first last hb
    refine ⟨fun k s hfirst hlast hs => h.scopeStart_eq hb hfirst hlast hs, ?_⟩
    rcases h.open_or_closed hb with ho | hc
    · exact Or.inl ⟨ho, ho.not_closed⟩
    · exact Or.inr ⟨hc, fun ho => ho.not_closed hc⟩
  · constructor
    · rintro hempty first last ⟨-, hitems, -⟩
      rw [hempty] at hitems
      cases hitems
    · intro hnone
      by_contra hitems
      obtain ⟨first, last, ho⟩ := h.exists_openBlock hitems
      exact hnone first last ho

end Deduction

end Typographical
