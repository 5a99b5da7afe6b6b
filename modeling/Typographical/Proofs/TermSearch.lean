import Typographical.Proofs.Replacement

/-!
# Terms that are searched for and taken out

A term is found by one recursion and replaced by another one. That the two see
the same occurrences is told by a variable that occurs nowhere else: put in place
of the term, it marks every place where the term was found. Nothing is left to be
found afterwards, since an occurrence that is left would have to hold no mark, and
where there is no mark nothing was changed.
-/

namespace Typographical

namespace Term

variable {s t u : Term} {x : Variable}

theorem containsSubterm_self (t : Term) : t.containsSubterm t = true := by
  cases t <;> simp [containsSubterm]

/-- A term that is not found is not replaced. -/
theorem replaceSubterm_eq_self (h : s.containsSubterm t = false) : s.replaceSubterm t u = s := by
  induction s with
  | zero =>
    rw [containsSubterm, decide_eq_false_iff_not] at h
    rw [replaceSubterm, if_neg h]
  | var v =>
    rw [containsSubterm, decide_eq_false_iff_not] at h
    rw [replaceSubterm, if_neg h]
  | succ s ih =>
    rw [containsSubterm, Bool.or_eq_false_iff, decide_eq_false_iff_not] at h
    rw [replaceSubterm, if_neg h.1, ih h.2]
  | sum l r ihl ihr =>
    simp only [containsSubterm, Bool.or_eq_false_iff, decide_eq_false_iff_not] at h
    rw [replaceSubterm, if_neg h.1.1, ihl h.1.2, ihr h.2]
  | product l r ihl ihr =>
    simp only [containsSubterm, Bool.or_eq_false_iff, decide_eq_false_iff_not] at h
    rw [replaceSubterm, if_neg h.1.1, ihl h.1.2, ihr h.2]

/-- Where the term is found, the variable is put. -/
theorem mem_replaceSubterm_of_contains (h : s.containsSubterm t = true) :
    x ∈ (s.replaceSubterm t (var x)).occurrences := by
  have here : x ∈ (var x).occurrences := List.mem_singleton.mpr rfl
  induction s with
  | zero =>
    rw [containsSubterm, decide_eq_true_eq] at h
    rwa [replaceSubterm, if_pos h]
  | var v =>
    rw [containsSubterm, decide_eq_true_eq] at h
    rwa [replaceSubterm, if_pos h]
  | succ s ih =>
    rw [containsSubterm, Bool.or_eq_true, decide_eq_true_eq] at h
    rw [replaceSubterm]
    split
    · exact here
    · next hne => exact ih (h.resolve_left hne)
  | sum l r ihl ihr =>
    simp only [containsSubterm, Bool.or_eq_true, decide_eq_true_eq, or_assoc] at h
    rw [replaceSubterm]
    split
    · exact here
    · next hne => exact List.mem_append.mpr ((h.resolve_left hne).imp ihl ihr)
  | product l r ihl ihr =>
    simp only [containsSubterm, Bool.or_eq_true, decide_eq_true_eq, or_assoc] at h
    rw [replaceSubterm]
    split
    · exact here
    · next hne => exact List.mem_append.mpr ((h.resolve_left hne).imp ihl ihr)

theorem mem_replaceSubterm_iff (new : x ∉ s.occurrences) :
    x ∈ (s.replaceSubterm t (var x)).occurrences ↔ s.containsSubterm t = true := by
  constructor
  · intro hx
    by_contra h
    rw [replaceSubterm_eq_self (by simpa using h)] at hx
    exact new hx
  · exact mem_replaceSubterm_of_contains

/-- The term itself does not come out of a replacement: it holds no mark, so
nothing would have been replaced, although it was there. -/
theorem replaceSubterm_ne (new : x ∉ t.occurrences) : s.replaceSubterm t (var x) ≠ t := by
  intro heq
  have hnot : s.containsSubterm t = false := by
    by_contra h
    have hx : x ∈ (s.replaceSubterm t (var x)).occurrences :=
      mem_replaceSubterm_of_contains (by simpa using h)
    rw [heq] at hx
    exact new hx
  have hsame : s = t := (replaceSubterm_eq_self hnot).symm.trans heq
  rw [hsame, containsSubterm_self] at hnot
  cases hnot

/-- No part of what comes out is the term, either. -/
theorem containsSubterm_replaceSubterm (new : x ∉ t.occurrences) :
    (s.replaceSubterm t (var x)).containsSubterm t = false := by
  have mark : (var x).containsSubterm t = false := by
    rw [containsSubterm, decide_eq_false_iff_not]
    rintro rfl
    exact new (List.mem_singleton.mpr rfl)
  have whole := replaceSubterm_ne (s := s) new
  induction s with
  | zero =>
    rw [replaceSubterm] at whole ⊢
    split
    · exact mark
    · next hne => simpa [containsSubterm] using hne
  | var v =>
    rw [replaceSubterm] at whole ⊢
    split
    · exact mark
    · next hne => simpa [containsSubterm] using hne
  | succ s ih =>
    rw [replaceSubterm] at whole ⊢
    split
    · exact mark
    · next hne =>
      rw [if_neg hne] at whole
      simpa [containsSubterm, whole] using ih (replaceSubterm_ne new)
  | sum l r ihl ihr =>
    rw [replaceSubterm] at whole ⊢
    split
    · exact mark
    · next hne =>
      rw [if_neg hne] at whole
      simpa [containsSubterm, whole] using
        And.intro (ihl (replaceSubterm_ne new)) (ihr (replaceSubterm_ne new))
  | product l r ihl ihr =>
    rw [replaceSubterm] at whole ⊢
    split
    · exact mark
    · next hne =>
      rw [if_neg hne] at whole
      simpa [containsSubterm, whole] using
        And.intro (ihl (replaceSubterm_ne new)) (ihr (replaceSubterm_ne new))

end Term

namespace Formula

variable {f : Formula} {t : Term} {x : Variable}

/-- The mark is free exactly if the term is found. Below a quantifier of one of
its variables the term is neither found nor replaced. -/
theorem mem_freeVars_replaceTerm_iff (hfree : x ∉ f.freeVars) (hbound : x ∉ f.quantifiedVars) :
    x ∈ (f.replaceTerm t (.var x)).freeVars ↔ f.containsTerm t = true := by
  induction f with
  | equality l r =>
    rw [mem_freeVars_equality, not_or] at hfree
    rw [replaceTerm, mem_freeVars_equality, Term.mem_replaceSubterm_iff hfree.1,
      Term.mem_replaceSubterm_iff hfree.2, containsTerm, Bool.or_eq_true]
  | neg f ih =>
    rw [mem_freeVars_neg] at hfree
    rw [replaceTerm, mem_freeVars_neg, containsTerm, ih hfree hbound]
  | binary op l r ihl ihr =>
    rw [mem_freeVars_binary, not_or] at hfree
    rw [quantifiedVars, List.mem_append, not_or] at hbound
    rw [replaceTerm, mem_freeVars_binary, ihl hfree.1 hbound.1, ihr hfree.2 hbound.2, containsTerm,
      Bool.or_eq_true]
  | quantified q w f ih =>
    rw [quantifiedVars, List.mem_cons, not_or] at hbound
    have hfree : x ∉ f.freeVars := fun hx => hfree (mem_freeVars_quantified.mpr ⟨hbound.1, hx⟩)
    rw [replaceTerm, mem_freeVars_quantified, containsTerm]
    cases hw : t.containsVar w with
    | true => simp [hfree]
    | false => simpa [hbound.1] using ih hfree hbound.2

theorem containsTerm_replaceTerm (new : x ∉ t.occurrences) :
    (f.replaceTerm t (.var x)).containsTerm t = false := by
  induction f with
  | equality l r =>
    rw [replaceTerm, containsTerm, Term.containsSubterm_replaceSubterm new,
      Term.containsSubterm_replaceSubterm new, Bool.or_false]
  | neg f ih => rw [replaceTerm, containsTerm, ih]
  | binary op l r ihl ihr => rw [replaceTerm, containsTerm, ihl, ihr, Bool.or_false]
  | quantified q w f ih =>
    rw [replaceTerm, containsTerm]
    cases hw : t.containsVar w with
    | true => rfl
    | false => simpa using ih

/-- A variable that occurs neither in a formula nor in a term may take the place of
the term. It can be undone, the variable is then free if and only if the term was
found before, the term is not found any more, and any other term put in place of
the variable might have been put in place of the term at once. -/
theorem replacement_agrees_with_search (f : Formula) (t : Term) (x : Variable)
    (hf : f.containsVar x = false) (ht : t.containsVar x = false) :
    (f.replaceTerm t (.var x)).substitute x t = f ∧
      ((f.replaceTerm t (.var x)).isFree x = true ↔ f.containsTerm t = true) ∧
      (f.replaceTerm t (.var x)).containsTerm t = false ∧
      ∀ w, f.replaceTerm t w = (f.replaceTerm t (.var x)).substitute x w := by
  have ⟨hfree, hbound⟩ : x ∉ f.freeVars ∧ x ∉ f.quantifiedVars := by
    rwa [← not_or, ← containsVar_iff, Bool.not_eq_true]
  have hterm : x ∉ t.occurrences := by
    rwa [← Term.containsVar_iff, Bool.not_eq_true]
  refine ⟨?_, ?_, containsTerm_replaceTerm hterm, ?_⟩
  · rw [substitute_replaceTerm hfree hbound, replaceTerm_self]
  · rw [isFree_iff, mem_freeVars_replaceTerm_iff hfree hbound]
  · intro w
    exact (substitute_replaceTerm hfree hbound).symm

/-- The term occurs within itself once more, and also below a quantifier of its own
variable, where it is left alone. -/
theorem replacement_agrees_with_search_shadowed :
    let a := Variable.austere 0
    let x := Variable.austere 1
    let t := Term.succ (.var a)
    let f := and (equality (.sum t (.succ t)) .zero) (thereIs a (equality t .zero))
    let g := and (equality (.sum (.var x) (.succ (.var x))) .zero) (thereIs a (equality t .zero))
    (f.containsVar x = false ∧ t.containsVar x = false) ∧
      f.replaceTerm t (.var x) = g ∧ g.substitute x t = f ∧ g.isFree x = true ∧
      g.containsTerm t = false ∧ f.replaceTerm t .zero = g.substitute x .zero := by
  intro a x t f g
  have hf : f.containsVar x = false := by decide
  have ht : t.containsVar x = false := by decide
  have hg : f.replaceTerm t (.var x) = g := by decide
  have h := replacement_agrees_with_search f t x hf ht
  rw [hg] at h
  exact ⟨⟨hf, ht⟩, hg, h.1, h.2.1.mpr (by decide), h.2.2.1, h.2.2.2 .zero⟩

end Formula

end Typographical
