import Typographical.Axioms
import Typographical.Proofs.Nameless
import Typographical.Proofs.Replacement
import Typographical.Proofs.WellFormed

/-!
# Names in austere forms

The names that renaming gives out are taken from one set of used names, which
grows while the formula is walked through and is handed on from the left side of
a connective to the right one. Of this set one thing is kept: apart from the free
variables, the names used are those at the beginning of the austere sequence. So
the next name is always the next one of the sequence that is not free.

Since no name is given out that is in use, quantifiers have different variables,
and none of them is a variable that occurs free anywhere. This makes the austere
form of every formula well quantified.
-/

namespace Typographical

/-- Those of the first `n` names of the austere sequence that are not in a set. -/
def Variable.outside (taken : SortedSet Variable) (n : Nat) : List Variable :=
  ((List.range n).map austere).filter (· ∉ taken)

namespace Variable

variable {taken used : SortedSet Variable} {n k : Nat} {v : Variable}

theorem mem_outside : v ∈ outside taken n ↔ (∃ i < n, austere i = v) ∧ v ∉ taken := by
  simp [outside, List.mem_filter]

theorem nodup_outside (taken : SortedSet Variable) (n : Nat) : (outside taken n).Nodup :=
  (List.nodup_range.map austere_injective).filter _

theorem outside_succ (h : austere k ∉ taken) :
    outside taken (k + 1) = outside taken k ++ [austere k] := by
  simp [outside, List.range_succ, h]

/-- Names of the set itself count for nothing. -/
theorem outside_eq_of_le (hle : n ≤ k) (h : ∀ i, n ≤ i → i < k → austere i ∈ taken) :
    outside taken k = outside taken n := by
  induction k, hle using Nat.le_induction with
  | base => rfl
  | succ k hle ih =>
    have hk : austere k ∈ taken := h k hle (Nat.lt_succ_self k)
    have hbelow := ih (fun i hi hik => h i hi (Nat.lt_succ_of_lt hik))
    rw [← hbelow]
    simp [outside, List.range_succ, hk]

/-- The names used are those of a set and the first `n` of the austere sequence. -/
def Exhausted (taken used : SortedSet Variable) (n : Nat) : Prop :=
  ∀ v, v ∈ used ↔ v ∈ taken ∨ v ∈ outside taken n

theorem exhausted_zero (taken : SortedSet Variable) : Exhausted taken taken 0 := by
  intro v
  simp [outside]

/-- One step: a fresh name is the next one of the sequence that is not in the
set. -/
theorem Exhausted.insert_fresh (h : Exhausted taken used n) :
    ∃ m, outside taken m = outside taken n ++ [fresh used] ∧
      Exhausted taken (used.insert (fresh used)) m := by
  obtain ⟨k, hfresh, hfree, hbelow⟩ := fresh_spec used
  rw [h, not_or] at hfree
  have hle : n ≤ k := by
    by_contra hlt
    exact hfree.2 (mem_outside.mpr ⟨⟨k, by omega, rfl⟩, hfree.1⟩)
  have hbetween : ∀ i, n ≤ i → i < k → austere i ∈ taken := by
    intro i hi hik
    rcases (h _).mp (hbelow i hik) with hmem | hmem
    · exact hmem
    · obtain ⟨⟨j, hj, heq⟩, -⟩ := mem_outside.mp hmem
      have hji : j = i := austere_injective heq
      omega
  have hnext : outside taken (k + 1) = outside taken n ++ [fresh used] := by
    rw [outside_succ hfree.1, outside_eq_of_le hle hbetween, hfresh]
  refine ⟨k + 1, hnext, ?_⟩
  intro v
  rw [hnext, SortedSet.mem_insert, List.mem_append, List.mem_singleton, h v]
  tauto

end Variable

theorem Term.exists_of_mem_rename {t : Term} {name : Variable → Variable} {v : Variable}
    (h : v ∈ (t.rename name).occurrences) : ∃ u ∈ t.occurrences, name u = v := by
  rw [rename, occurrences_bind, List.mem_flatMap] at h
  obtain ⟨u, hu, hv⟩ := h
  exact ⟨u, hu, (List.mem_singleton.mp hv).symm⟩

namespace Formula

open Variable (Exhausted outside)

variable {taken used : SortedSet Variable} {n : Nat} {v : Variable}

/-- A whole run: the quantifiers get the next names of the sequence, from left to
right. -/
theorem exhausted_renameBound (f : Formula) (name : Variable → Variable)
    (h : Exhausted taken used n) :
    ∃ m, outside taken m = outside taken n ++ (f.renameBound used name).1.quantifiedVars ∧
      Exhausted taken (f.renameBound used name).2 m := by
  induction f generalizing used name n with
  | equality l r => exact ⟨n, (List.append_nil _).symm, h⟩
  | neg f ih => exact ih name h
  | binary op l r ihl ihr =>
    obtain ⟨k, hk, hl⟩ := ihl name h
    obtain ⟨m, hm, hr⟩ := ihr name hl
    refine ⟨m, ?_, hr⟩
    rw [hm, hk, List.append_assoc]
    rfl
  | quantified q w f ih =>
    obtain ⟨k, hk, hw⟩ := h.insert_fresh
    obtain ⟨m, hm, hf⟩ := ih (fun u => if u = w then fresh used else name u) hw
    refine ⟨m, ?_, hf⟩
    rw [hm, hk, List.append_assoc]
    rfl

theorem length_quantifiedVars_renameBound (f : Formula) (used : SortedSet Variable)
    (name : Variable → Variable) :
    (f.renameBound used name).1.quantifiedVars.length = f.quantifiedVars.length := by
  induction f generalizing used name with
  | equality l r => rfl
  | neg f ih => exact ih used name
  | binary op l r ihl ihr =>
    simp only [renameBound, quantifiedVars, List.length_append, ihl, ihr]
  | quantified q w f ih =>
    simp only [renameBound, quantifiedVars, List.length_cons, ih]

section

variable {f : Formula} {name : Variable → Variable}

theorem notMem_of_quantified_renameBound
    (h : v ∈ (f.renameBound used name).1.quantifiedVars) : v ∉ used := by
  induction f generalizing used name with
  | equality l r => cases h
  | neg f ih => exact ih h
  | binary op l r ihl ihr =>
    rcases List.mem_append.mp h with h | h
    · exact ihl h
    · exact fun hv => ihr h (mem_renameBound_snd hv)
  | quantified q w f ih =>
    rcases List.mem_cons.mp h with rfl | h
    · exact fresh_not_mem used
    · exact fun hv => ih h (SortedSet.mem_insert.mpr (Or.inr hv))

theorem exists_of_free_renameBound (h : v ∈ (f.renameBound used name).1.freeVars) :
    ∃ u ∈ f.freeVars, name u = v := by
  induction f generalizing used name with
  | equality l r =>
    simp only [renameBound, mem_freeVars_equality] at h ⊢
    rcases h with h | h
    · obtain ⟨u, hu, huv⟩ := Term.exists_of_mem_rename h
      exact ⟨u, Or.inl hu, huv⟩
    · obtain ⟨u, hu, huv⟩ := Term.exists_of_mem_rename h
      exact ⟨u, Or.inr hu, huv⟩
  | neg f ih =>
    simp only [renameBound, mem_freeVars_neg] at h ⊢
    exact ih h
  | binary op l r ihl ihr =>
    simp only [renameBound, mem_freeVars_binary] at h ⊢
    rcases h with h | h
    · obtain ⟨u, hu, huv⟩ := ihl h
      exact ⟨u, Or.inl hu, huv⟩
    · obtain ⟨u, hu, huv⟩ := ihr h
      exact ⟨u, Or.inr hu, huv⟩
  | quantified q w f ih =>
    simp only [renameBound, mem_freeVars_quantified] at h ⊢
    obtain ⟨hne, h⟩ := h
    obtain ⟨u, hu, huv⟩ := ih h
    by_cases huw : u = w
    · rw [if_pos huw] at huv
      exact absurd huv.symm hne
    · rw [if_neg huw] at huv
      exact ⟨u, ⟨huw, hu⟩, huv⟩

theorem mem_of_free_renameBound (named : ∀ u ∈ f.freeVars, name u ∈ used)
    {used' : SortedSet Variable} (h : v ∈ (f.renameBound used' name).1.freeVars) : v ∈ used := by
  obtain ⟨u, hu, rfl⟩ := exists_of_free_renameBound h
  exact named u hu

/-- Free variables keep names that are in use, and quantifiers get names that are
not. The right side of a connective starts from what the left side has used. -/
theorem wellQuantified_renameBound (named : ∀ u ∈ f.freeVars, name u ∈ used) :
    (f.renameBound used name).1.WellQuantified := by
  induction f generalizing used name with
  | equality l r => trivial
  | neg f ih =>
    simp only [mem_freeVars_neg] at named
    exact ih named
  | binary op l r ihl ihr =>
    simp only [mem_freeVars_binary] at named
    have hl : ∀ u ∈ l.freeVars, name u ∈ used := fun u hu => named u (Or.inl hu)
    have hr : ∀ u ∈ r.freeVars, name u ∈ used := fun u hu => named u (Or.inr hu)
    refine ⟨ihl hl, ihr (fun u hu => mem_renameBound_snd (hr u hu)), ?_, ?_⟩
    · intro u hu hq
      exact notMem_of_quantified_renameBound hq
        (mem_renameBound_snd (mem_of_free_renameBound hl hu))
    · intro u hu hq
      exact notMem_of_quantified_renameBound hq (mem_of_free_renameBound hr hu)
  | quantified q w f ih =>
    simp only [mem_freeVars_quantified] at named
    refine ⟨?_, ih ?_⟩
    · intro hq
      exact notMem_of_quantified_renameBound hq (SortedSet.mem_insert.mpr (Or.inl rfl))
    · intro u hu
      rw [SortedSet.mem_insert]
      by_cases huw : u = w
      · rw [if_pos huw]
        exact Or.inl rfl
      · rw [if_neg huw]
        exact Or.inr (named u ⟨huw, hu⟩)

end

/-- The austere form of any formula is well quantified and has the same free
variables. The variables of its quantifiers, in textual order, are all different
and are as many as the formula has quantifiers; they are the first names of the
austere sequence, the free variables left out. -/
theorem austere_names_minimal (f : Formula) :
    f.austere.checkWellFormed = .ok () ∧
      f.austere.freeVars = f.freeVars ∧
      f.austere.quantifiedVars.Nodup ∧
      f.austere.quantifiedVars.length = f.quantifiedVars.length ∧
      ∃ n, f.austere.quantifiedVars = Variable.outside f.freeVars n := by
  obtain ⟨n, hn, -⟩ := f.exhausted_renameBound id (Variable.exhausted_zero f.freeVars)
  have hnames : f.austere.quantifiedVars = Variable.outside f.freeVars n := hn.symm
  refine ⟨?_, ?_, ?_, f.length_quantifiedVars_renameBound f.freeVars id, n, hnames⟩
  · exact checkWellFormed_iff.mpr (wellQuantified_renameBound (fun _ hu => hu))
  · exact AlphaEquivalent.freeVars_eq (nameless_austere f)
  · rw [hnames]
    exact Variable.nodup_outside f.freeVars n

/-- The name `a` is passed over, since it is free, and a quantifier that another one
shadows gets a name of its own. -/
example :
    let b : Variable := ⟨'b', 0, rfl⟩
    let f := and (equality Axioms.first .zero)
      (forAll b (thereIs b (equality (.var b) (.var b))))
    f.austere.text = "[a=0&Aa':Ea'':a''=a'']" := by
  decide

end Formula

end Typographical
