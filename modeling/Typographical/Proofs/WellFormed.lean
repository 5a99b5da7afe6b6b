import Typographical.Formula.WellFormed
import Typographical.Proofs.Outcome
import Typographical.Proofs.Variables

/-!
# Well-quantified formulas, declaratively

The check for well-quantified formulas hands the variables quantified above
down and free and bound variables up. Here it is compared with a description
that mentions a formula and its immediate parts only.
-/

namespace Typographical

namespace Formula

/-- No quantifier stands below another one of the same variable, and no variable
is free on one side of a connective and bound on the other. -/
def WellQuantified : Formula → Prop
  | equality _ _ => True
  | neg f => f.WellQuantified
  | binary _ l r => l.WellQuantified ∧ r.WellQuantified ∧
      (∀ v ∈ l.freeVars, v ∉ r.quantifiedVars) ∧ (∀ v ∈ r.freeVars, v ∉ l.quantifiedVars)
  | quantified _ v f => v ∉ f.quantifiedVars ∧ f.WellQuantified

theorem freeVars_equality (l r : Term) : (equality l r).freeVars = l.vars.union r.vars := by
  apply SortedSet.ext_mem
  simp

theorem freeVars_neg (f : Formula) : (neg f).freeVars = f.freeVars := by
  apply SortedSet.ext_mem
  simp

theorem freeVars_binary (op : Connective) (l r : Formula) :
    (binary op l r).freeVars = l.freeVars.union r.freeVars := by
  apply SortedSet.ext_mem
  simp

theorem freeVars_quantified (q : Quantifier) (v : Variable) (f : Formula) :
    (quantified q v f).freeVars = f.freeVars.erase v := by
  apply SortedSet.ext_mem
  simp

theorem boundVars_binary (op : Connective) (l r : Formula) :
    (binary op l r).boundVars = l.boundVars.union r.boundVars := by
  apply SortedSet.ext_mem
  simp [quantifiedVars]

theorem boundVars_quantified (q : Quantifier) (v : Variable) (f : Formula) :
    (quantified q v f).boundVars = f.boundVars.insert v := by
  apply SortedSet.ext_mem
  simp [quantifiedVars]

theorem toList_inter_eq_nil_iff {s t : SortedSet Variable} :
    (s.inter t).toList = [] ↔ ∀ v ∈ s, v ∉ t := by
  rw [List.eq_nil_iff_forall_not_mem]
  simp only [← SortedSet.mem_def, SortedSet.mem_inter, not_and]

/-- The sets handed up are the free and the bound variables, and the variables
handed down are those that may not be quantified again. -/
theorem wellFormedBelow_eq_ok_iff {f : Formula} {path free bound : SortedSet Variable} :
    f.wellFormedBelow path = .ok (free, bound) ↔
      f.WellQuantified ∧ (∀ v ∈ f.quantifiedVars, v ∉ path) ∧
        free = f.freeVars ∧ bound = f.boundVars := by
  induction f generalizing path free bound with
  | equality l r =>
    rw [wellFormedBelow, freeVars_equality]
    simp only [WellQuantified, quantifiedVars, Except.ok.injEq, Prod.mk.injEq, List.not_mem_nil,
      false_implies, implies_true, true_and]
    rw [eq_comm, eq_comm (a := bound)]
    exact Iff.rfl
  | neg f ih =>
    rw [wellFormedBelow, mapError_eq_ok_iff, ih, freeVars_neg]
    exact Iff.rfl
  | binary op l r ihl ihr =>
    simp only [wellFormedBelow, bind_eq_ok_iff, mapError_eq_ok_iff, Prod.exists, ihl, ihr]
    simp only [WellQuantified, quantifiedVars, List.mem_append]
    constructor
    · rintro ⟨lf, lb, ⟨hl, hlp, rfl, rfl⟩, rf, rb, ⟨hr, hrp, rfl, rfl⟩, h⟩
      split at h
      · cases h
      · cases h
      · next hlr hrl =>
        have hlr := toList_inter_eq_nil_iff.mp hlr
        have hrl := toList_inter_eq_nil_iff.mp hrl
        simp only [mem_boundVars] at hlr hrl
        cases h
        refine ⟨⟨hl, hr, hlr, hrl⟩, ?_, (freeVars_binary op l r).symm,
          (boundVars_binary op l r).symm⟩
        rintro v (hv | hv)
        · exact hlp v hv
        · exact hrp v hv
    · rintro ⟨⟨hl, hr, hlr, hrl⟩, hp, rfl, rfl⟩
      refine ⟨_, _, ⟨hl, fun v hv => hp v (Or.inl hv), rfl, rfl⟩,
        _, _, ⟨hr, fun v hv => hp v (Or.inr hv), rfl, rfl⟩, ?_⟩
      have hlr : (l.freeVars.inter r.boundVars).toList = [] :=
        toList_inter_eq_nil_iff.mpr (by simpa using hlr)
      have hrl : (r.freeVars.inter l.boundVars).toList = [] :=
        toList_inter_eq_nil_iff.mpr (by simpa using hrl)
      rw [hlr, hrl, freeVars_binary, boundVars_binary]
  | quantified q w f ih =>
    rw [wellFormedBelow]
    simp only [WellQuantified, quantifiedVars, List.mem_cons]
    split
    · next hw =>
      have hw : w ∈ path := by simpa using hw
      constructor
      · intro h
        cases h
      · rintro ⟨-, hp, -⟩
        exact absurd hw (hp w (Or.inl rfl))
    · next hw =>
      have hw : w ∉ path := by simpa using hw
      simp only [bind_eq_ok_iff, mapError_eq_ok_iff, Prod.exists, ih, SortedSet.mem_insert, not_or]
      constructor
      · rintro ⟨fr, bd, ⟨hf, hp, rfl, rfl⟩, h⟩
        cases h
        refine ⟨⟨fun hv => (hp w hv).1 rfl, hf⟩, ?_, (freeVars_quantified q w f).symm,
          (boundVars_quantified q w f).symm⟩
        rintro v (rfl | hv)
        · exact hw
        · exact (hp v hv).2
      · rintro ⟨⟨hwf, hf⟩, hp, rfl, rfl⟩
        refine ⟨_, _, ⟨hf, ?_, rfl, rfl⟩, ?_⟩
        · intro v hv
          refine ⟨?_, hp v (Or.inr hv)⟩
          rintro rfl
          exact hwf hv
        · rw [freeVars_quantified, boundVars_quantified]

theorem checkWellFormed_iff {f : Formula} : f.checkWellFormed = .ok () ↔ f.WellQuantified := by
  rw [checkWellFormed, map_eq_ok_iff]
  constructor
  · rintro ⟨⟨free, bound⟩, h, -⟩
    exact (wellFormedBelow_eq_ok_iff.mp h).1
  · intro h
    exact ⟨(f.freeVars, f.boundVars),
      wellFormedBelow_eq_ok_iff.mpr ⟨h, fun v _ => SortedSet.not_mem_empty v, rfl, rfl⟩, rfl⟩

end Formula

end Typographical
