import Mathlib.Data.List.Nodup
import Mathlib.Data.List.Range
import Typographical.Formula.Austere
import Typographical.Formula.Substitution
import Typographical.Proofs.SortedSet

/-!
# Free, bound and fresh variables

The sets of variables are computed with a set of bound variables handed down.
Here they are brought into the form in which they are reasoned about: who is a
member, one constructor at a time. The same is done for the first name of the
austere sequence outside a set.
-/

namespace Typographical

namespace Variable

theorem austere_injective : Function.Injective austere :=
  fun _ _ h => congrArg primes h

end Variable

namespace Term

@[simp]
theorem mem_vars {t : Term} {v : Variable} : v ∈ t.vars ↔ v ∈ t.occurrences :=
  SortedSet.mem_ofList

@[simp]
theorem containsVar_iff {t : Term} {v : Variable} :
    t.containsVar v = true ↔ v ∈ t.occurrences := by
  induction t with
  | zero => simp [containsVar, occurrences]
  | var w => simp [containsVar, occurrences, eq_comm]
  | succ t ih => simpa [containsVar, occurrences] using ih
  | sum l r ihl ihr => simp [containsVar, occurrences, ihl, ihr]
  | product l r ihl ihr => simp [containsVar, occurrences, ihl, ihr]

end Term

namespace Formula

theorem mem_freeVars {f : Formula} {v : Variable} :
    v ∈ f.freeVars ↔ v ∈ f.freeOccurrences ∅ := SortedSet.mem_ofList

/-- What is handed down as bound is exactly what is left out. -/
theorem mem_freeOccurrences {f : Formula} {bound : SortedSet Variable} {v : Variable} :
    v ∈ f.freeOccurrences bound ↔ v ∈ f.freeVars ∧ v ∉ bound := by
  induction f generalizing bound with
  | equality l r =>
    simp only [mem_freeVars, freeOccurrences, List.mem_filter]
    simp
  | neg f ih =>
    rw [mem_freeVars, freeOccurrences, freeOccurrences, ← mem_freeVars]
    exact ih
  | binary op l r ihl ihr =>
    simp only [mem_freeVars, freeOccurrences, List.mem_append]
    rw [ihl, ihr, mem_freeVars, mem_freeVars]
    tauto
  | quantified q w f ih =>
    simp only [mem_freeVars (f := quantified q w f), freeOccurrences_quantified]
    rw [ih, ih, SortedSet.mem_insert, SortedSet.mem_insert]
    have := SortedSet.not_mem_empty v
    tauto

@[simp]
theorem mem_freeVars_equality {l r : Term} {v : Variable} :
    v ∈ (equality l r).freeVars ↔ v ∈ l.occurrences ∨ v ∈ r.occurrences := by
  simp [mem_freeVars, freeOccurrences]

@[simp]
theorem mem_freeVars_neg {f : Formula} {v : Variable} :
    v ∈ (neg f).freeVars ↔ v ∈ f.freeVars := by
  rw [mem_freeVars, mem_freeVars, freeOccurrences]

@[simp]
theorem mem_freeVars_binary {op : Connective} {l r : Formula} {v : Variable} :
    v ∈ (binary op l r).freeVars ↔ v ∈ l.freeVars ∨ v ∈ r.freeVars := by
  rw [mem_freeVars, mem_freeVars, mem_freeVars, freeOccurrences, List.mem_append]

@[simp]
theorem mem_freeVars_quantified {q : Quantifier} {w : Variable} {f : Formula} {v : Variable} :
    v ∈ (quantified q w f).freeVars ↔ v ≠ w ∧ v ∈ f.freeVars := by
  rw [mem_freeVars, freeOccurrences_quantified, mem_freeOccurrences, SortedSet.mem_insert]
  have := SortedSet.not_mem_empty v
  tauto

@[simp]
theorem isFree_iff {f : Formula} {v : Variable} : f.isFree v = true ↔ v ∈ f.freeVars :=
  SortedSet.contains_iff

@[simp]
theorem mem_boundVars {f : Formula} {v : Variable} :
    v ∈ f.boundVars ↔ v ∈ f.quantifiedVars := SortedSet.mem_ofList

@[simp]
theorem mem_allVars {f : Formula} {v : Variable} :
    v ∈ f.allVars ↔ v ∈ f.freeVars ∨ v ∈ f.quantifiedVars := by
  rw [allVars, SortedSet.mem_union, mem_boundVars]

theorem containsVar_iff {f : Formula} {v : Variable} :
    f.containsVar v = true ↔ v ∈ f.freeVars ∨ v ∈ f.quantifiedVars := by
  induction f with
  | equality l r => simp [containsVar, quantifiedVars]
  | neg f ih => simpa [containsVar, quantifiedVars] using ih
  | binary op l r ihl ihr =>
    simp only [containsVar, quantifiedVars, Bool.or_eq_true, ihl, ihr, mem_freeVars_binary,
      List.mem_append]
    rw [or_or_or_comm]
  | quantified q w f ih =>
    simp only [containsVar, quantifiedVars, Bool.or_eq_true, decide_eq_true_eq, ih,
      mem_freeVars_quantified, List.mem_cons]
    by_cases hw : v = w
    · simp [hw]
    · simp [hw, eq_comm]

end Formula

/-- More names of the austere sequence than a set has members cannot all be in
it. -/
theorem exists_austere_not_mem (used : SortedSet Variable) :
    ∃ n, n ≤ used.size ∧ Variable.austere n ∉ used := by
  by_contra hnone
  have hall : ∀ n, n ≤ used.size → Variable.austere n ∈ used := by
    intro n hn
    by_contra hfree
    exact hnone ⟨n, hn, hfree⟩
  have hsub : (List.range (used.size + 1)).map Variable.austere ⊆ used.toList := by
    intro v hv
    obtain ⟨n, hn, rfl⟩ := List.mem_map.mp hv
    exact hall n (Nat.le_of_lt_succ (List.mem_range.mp hn))
  have hnodup : ((List.range (used.size + 1)).map Variable.austere).Nodup :=
    List.Nodup.map Variable.austere_injective List.nodup_range
  have hlen := (List.subperm_of_subset hnodup hsub).length_le
  rw [List.length_map, List.length_range] at hlen
  have hsize : used.toList.length = used.size := Array.length_toList
  omega

/-- The fresh variable is outside the set, and all before it are inside. -/
theorem fresh_spec (used : SortedSet Variable) :
    ∃ n, fresh used = .austere n ∧ .austere n ∉ used ∧ ∀ m, m < n → .austere m ∈ used := by
  obtain ⟨k, hk, hfree⟩ := exists_austere_not_mem used
  have hfound : ((List.range (used.size + 1)).find?
      (fun n => !used.contains (.austere n))).isSome := by
    rw [List.find?_isSome]
    exact ⟨k, List.mem_range.mpr (by omega), by simpa using hfree⟩
  obtain ⟨n, hn⟩ := Option.isSome_iff_exists.mp hfound
  refine ⟨n, by rw [fresh, hn, Option.getD_some], ?_, ?_⟩
  · have := List.find?_some hn
    simpa using this
  · intro m hm
    obtain ⟨-, i, hi, hin, hbefore⟩ := List.find?_eq_some_iff_getElem.mp hn
    have hni : n = i := by simpa using hin.symm
    have := hbefore m (by omega)
    simpa using this

theorem fresh_not_mem (used : SortedSet Variable) : fresh used ∉ used := by
  obtain ⟨n, hn, hfree, -⟩ := fresh_spec used
  rw [hn]
  exact hfree

end Typographical
