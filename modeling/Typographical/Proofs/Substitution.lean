import Typographical.Proofs.Replacement
import Typographical.Proofs.Truth

/-!
# Substitution and truth

Putting a term in place of a variable amounts to changing the value of the
variable, and putting a new variable in place of a term to giving it the value
of the term. Neither asks the formula to be well quantified; all that matters is
that no quantifier catches a variable of what is put in.
-/

namespace Typographical

variable {I : Interpretation}

namespace Term

theorem value_bind (t : Term) (f : Variable → Term) (σ : Valuation) :
    (t.bind f).value I σ = t.value I (fun v => (f v).value I σ) := by
  induction t with
  | zero => rfl
  | var v => rfl
  | succ t ih => exact congrArg (· + 1) ih
  | sum l r ihl ihr => exact congrArg₂ I.add ihl ihr
  | product l r ihl ihr => exact congrArg₂ I.mul ihl ihr

theorem value_replace (t : Term) (v : Variable) (u : Term) (σ : Valuation) :
    (t.replace v u).value I σ = t.value I (Function.update σ v (u.value I σ)) := by
  rw [replace, value_bind]
  apply value_congr
  intro w _
  by_cases h : w = v
  · simp [h]
  · simp [h, value]

theorem value_replaceSubterm {t old new : Term} {σ τ : Valuation}
    (same : ∀ v ∈ t.occurrences, τ v = σ v) (equal : new.value I τ = old.value I σ) :
    (t.replaceSubterm old new).value I τ = t.value I σ := by
  induction t with
  | zero =>
    rw [replaceSubterm]
    split
    · next h => rw [h, equal]
    · rfl
  | var v =>
    rw [replaceSubterm]
    split
    · next h => rw [h, equal]
    · exact same v (by simp [occurrences])
  | succ t ih =>
    rw [replaceSubterm]
    split
    · next h => rw [h, equal]
    · exact congrArg (· + 1) (ih same)
  | sum l r ihl ihr =>
    simp only [occurrences, List.mem_append] at same
    rw [replaceSubterm]
    split
    · next h => rw [h, equal]
    · exact congrArg₂ I.add (ihl (fun v hv => same v (Or.inl hv)))
        (ihr (fun v hv => same v (Or.inr hv)))
  | product l r ihl ihr =>
    simp only [occurrences, List.mem_append] at same
    rw [replaceSubterm]
    split
    · next h => rw [h, equal]
    · exact congrArg₂ I.mul (ihl (fun v hv => same v (Or.inl hv)))
        (ihr (fun v hv => same v (Or.inr hv)))

end Term

namespace Formula

/-- A substituted term keeps its value below a quantifier because the quantifier
does not bind any of its variables. -/
theorem holds_substitute {f : Formula} {v : Variable} {t : Term} {σ : Valuation}
    (safe : ∀ u ∈ t.occurrences, u ∉ f.quantifiedVars) :
    (f.substitute v t).Holds I σ ↔ f.Holds I (Function.update σ v (t.value I σ)) := by
  induction f generalizing σ with
  | equality l r => rw [substitute, Holds, Holds, Term.value_replace, Term.value_replace]
  | neg f ih => exact not_congr (ih safe)
  | binary op l r ihl ihr =>
    simp only [quantifiedVars, List.mem_append, not_or] at safe
    exact op.holds_congr (ihl (fun u hu => (safe u hu).1)) (ihr (fun u hu => (safe u hu).2))
  | quantified q w f ih =>
    simp only [quantifiedVars, List.mem_cons, not_or] at safe
    refine q.holds_congr (fun n => ?_)
    by_cases hwv : w = v
    · subst hwv
      rw [if_pos rfl, Function.update_idem]
    · have hw : w ∉ t.occurrences := fun hw => (safe w hw).1 rfl
      rw [if_neg hwv, ih (fun u hu => (safe u hu).2), Term.value_update hw,
        Function.update_comm hwv]

/-- The new variable may not be quantified anywhere, since its value has to
survive all the way down to the terms it stands in. -/
theorem holds_replaceTerm {f : Formula} {t : Term} {p : Variable} {σ τ : Valuation}
    (unbound : p ∉ f.quantifiedVars) (same : ∀ v ∈ f.freeVars, τ v = σ v)
    (equal : τ p = t.value I σ) :
    (f.replaceTerm t (.var p)).Holds I τ ↔ f.Holds I σ := by
  induction f generalizing σ τ with
  | equality l r =>
    simp only [mem_freeVars_equality] at same
    have equal : (Term.var p).value I τ = t.value I σ := equal
    rw [replaceTerm, Holds, Holds,
      Term.value_replaceSubterm (fun v hv => same v (Or.inl hv)) equal,
      Term.value_replaceSubterm (fun v hv => same v (Or.inr hv)) equal]
  | neg f ih =>
    simp only [mem_freeVars_neg] at same
    exact not_congr (ih unbound same equal)
  | binary op l r ihl ihr =>
    simp only [quantifiedVars, List.mem_append, not_or] at unbound
    simp only [mem_freeVars_binary] at same
    exact op.holds_congr (ihl unbound.1 (fun v hv => same v (Or.inl hv)) equal)
      (ihr unbound.2 (fun v hv => same v (Or.inr hv)) equal)
  | quantified q w f ih =>
    simp only [quantifiedVars, List.mem_cons, not_or] at unbound
    simp only [mem_freeVars_quantified] at same
    have agree : ∀ n, ∀ v ∈ f.freeVars, Function.update τ w n v = Function.update σ w n v := by
      intro n v hv
      by_cases hvw : v = w
      · simp [hvw]
      · simpa [hvw] using same v ⟨hvw, hv⟩
    refine q.holds_congr (fun n => ?_)
    split
    · exact holds_congr (agree n)
    · next hw =>
      have hw : w ∉ t.occurrences := by simpa using hw
      refine ih unbound.2 (agree n) ?_
      rw [Function.update_of_ne unbound.1, equal, Term.value_update hw]

theorem freeVars_substitute {f : Formula} {v : Variable} {t : Term}
    (safe : ∀ u ∈ t.occurrences, u ∉ f.quantifiedVars) :
    (f.substitute v t).freeVars =
      if f.isFree v then (f.freeVars.erase v).union t.vars else f.freeVars.erase v := by
  apply SortedSet.ext_mem
  intro w
  rw [mem_freeVars_substitute safe]
  by_cases hv : v ∈ f.freeVars
  · simp [hv]
  · simp [hv]

/-- Substitution means a change of the valuation, as long as no quantifier within
the formula binds a variable of the term. The variable that is replaced is no
longer free, and those of the term are, if it was. The formula need not be well
quantified, and the variable may occur in the term. -/
theorem substitution_lemma (I : Interpretation) (σ : Valuation) (f : Formula) (v : Variable)
    (t : Term) (safe : ∀ u ∈ t.vars, u ∉ f.boundVars) :
    ((f.substitute v t).Holds I σ ↔ f.Holds I (Function.update σ v (t.value I σ))) ∧
    (f.substitute v t).freeVars =
      if f.isFree v then (f.freeVars.erase v).union t.vars else f.freeVars.erase v := by
  simp only [Term.mem_vars, mem_boundVars] at safe
  exact ⟨holds_substitute safe, freeVars_substitute safe⟩

/-- A variable that is free in one place and bound in another is replaced by a
term that contains a free variable of the formula. -/
theorem substitution_lemma_shadowed :
    let a := Variable.austere 0
    let b := Variable.austere 1
    let f := and (equality (.var a) (.var b)) (thereIs a (equality (.var a) .zero))
    let t := Term.succ (.var b)
    (∀ u ∈ t.vars, u ∉ f.boundVars) ∧
    f.substitute a t = and (equality t (.var b)) (thereIs a (equality (.var a) .zero)) ∧
    (f.substitute a t).freeVars = (f.freeVars.erase a).union t.vars ∧
    ∀ σ, (f.substitute a t).Holds .standard σ ↔
      f.Holds .standard (Function.update σ a (σ b + 1)) := by
  intro a b f t
  have safe : ∀ u ∈ t.vars, u ∉ f.boundVars := by decide
  refine ⟨safe, by decide, ?_, ?_⟩
  · exact (substitution_lemma .standard (fun _ => 0) f a t safe).2.trans (if_pos (by decide))
  · intro σ
    exact (substitution_lemma .standard σ f a t safe).1

end Formula

end Typographical
