import Typographical.Formula.Substitution
import Typographical.Proofs.Variables

/-!
# Replacing variables and terms

What putting a term in place of a variable, or in place of a term, does to the
variables of a formula, and how one is undone by the other: a variable that
occurs nowhere else can be put in place of a term, and whatever is put in its
place afterwards might have been put in place of the term at once.

Nothing here asks formulas to be well quantified.
-/

namespace Typographical

namespace Term

variable {s t u : Term} {v w x : Variable}

@[simp]
theorem replace_zero : zero.replace v u = zero := rfl

@[simp]
theorem replace_var : (var w).replace v u = if w = v then u else var w := rfl

@[simp]
theorem replace_succ : (succ t).replace v u = succ (t.replace v u) := rfl

@[simp]
theorem replace_sum {l r : Term} : (sum l r).replace v u = sum (l.replace v u) (r.replace v u) :=
  rfl

@[simp]
theorem replace_product {l r : Term} :
    (product l r).replace v u = product (l.replace v u) (r.replace v u) := rfl

/-- A variable that does not occur cannot be replaced. -/
theorem replace_eq_self (h : v ∉ t.occurrences) : t.replace v u = t := by
  induction t with
  | zero => rfl
  | var w =>
    have hw : w ≠ v := fun heq => h (by simp [occurrences, heq])
    simp [hw]
  | succ t ih => rw [replace_succ, ih h]
  | sum l r ihl ihr =>
    simp only [occurrences, List.mem_append, not_or] at h
    rw [replace_sum, ihl h.1, ihr h.2]
  | product l r ihl ihr =>
    simp only [occurrences, List.mem_append, not_or] at h
    rw [replace_product, ihl h.1, ihr h.2]

/-- A variable that is replaced by itself stays. -/
theorem replace_self : t.replace v (var v) = t := by
  induction t with
  | zero => rfl
  | var w => simpa using Eq.symm
  | succ t ih => rw [replace_succ, ih]
  | sum l r ihl ihr => rw [replace_sum, ihl, ihr]
  | product l r ihl ihr => rw [replace_product, ihl, ihr]

theorem occurrences_bind (t : Term) (f : Variable → Term) :
    (t.bind f).occurrences = t.occurrences.flatMap (fun v => (f v).occurrences) := by
  induction t with
  | zero => rfl
  | var v => simp [bind, occurrences]
  | succ t ih => exact ih
  | sum l r ihl ihr => simp [bind, occurrences, ihl, ihr]
  | product l r ihl ihr => simp [bind, occurrences, ihl, ihr]

theorem mem_occurrences_replace :
    w ∈ (t.replace v u).occurrences ↔
      w ≠ v ∧ w ∈ t.occurrences ∨ v ∈ t.occurrences ∧ w ∈ u.occurrences := by
  rw [replace, occurrences_bind, List.mem_flatMap]
  constructor
  · rintro ⟨y, hy, hw⟩
    by_cases hyv : y = v
    · rw [if_pos hyv] at hw
      exact Or.inr ⟨hyv ▸ hy, hw⟩
    · rw [if_neg hyv, occurrences, List.mem_singleton] at hw
      exact Or.inl ⟨hw ▸ hyv, hw ▸ hy⟩
  · rintro (⟨hne, hw⟩ | ⟨hv, hw⟩)
    · exact ⟨w, hw, by rw [if_neg hne, occurrences, List.mem_singleton]⟩
    · exact ⟨v, hv, by rwa [if_pos rfl]⟩

/-- A variable may be renamed before it is replaced. -/
theorem replace_replace_var (h : v ∉ t.occurrences) :
    (t.replace x (var v)).replace v u = t.replace x u := by
  induction t with
  | zero => rfl
  | var w =>
    have hw : w ≠ v := fun heq => h (by simp [occurrences, heq])
    by_cases hwx : w = x
    · simp [hwx]
    · simp [hwx, hw]
  | succ t ih => rw [replace_succ, replace_succ, replace_succ, ih h]
  | sum l r ihl ihr =>
    simp only [occurrences, List.mem_append, not_or] at h
    rw [replace_sum, replace_sum, replace_sum, ihl h.1, ihr h.2]
  | product l r ihl ihr =>
    simp only [occurrences, List.mem_append, not_or] at h
    rw [replace_product, replace_product, replace_product, ihl h.1, ihr h.2]

/-- The second term is the first one with `new` in place of `old`. Outermost
occurrences are replaced; what stands within them is not looked at. -/
inductive Replaced (old new : Term) : Term → Term → Prop
  | here : Replaced old new old new
  | zero (other : .zero ≠ old) : Replaced old new .zero .zero
  | var {v : Variable} (other : .var v ≠ old) : Replaced old new (.var v) (.var v)
  | succ {s s' : Term} (other : .succ s ≠ old) (h : Replaced old new s s') :
      Replaced old new (.succ s) (.succ s')
  | sum {l r l' r' : Term} (other : .sum l r ≠ old) (left : Replaced old new l l')
      (right : Replaced old new r r') : Replaced old new (.sum l r) (.sum l' r')
  | product {l r l' r' : Term} (other : .product l r ≠ old) (left : Replaced old new l l')
      (right : Replaced old new r r') : Replaced old new (.product l r) (.product l' r')

theorem replaced_replaceSubterm (old new s : Term) :
    Replaced old new s (s.replaceSubterm old new) := by
  induction s with
  | zero =>
    rw [replaceSubterm]
    split
    · next h => exact h ▸ .here
    · next h => exact .zero h
  | var v =>
    rw [replaceSubterm]
    split
    · next h => exact h ▸ .here
    · next h => exact .var h
  | succ s ih =>
    rw [replaceSubterm]
    split
    · next h => exact h ▸ .here
    · next h => exact .succ h ih
  | sum l r ihl ihr =>
    rw [replaceSubterm]
    split
    · next h => exact h ▸ .here
    · next h => exact .sum h ihl ihr
  | product l r ihl ihr =>
    rw [replaceSubterm]
    split
    · next h => exact h ▸ .here
    · next h => exact .product h ihl ihr

theorem replaceSubterm_old (old new : Term) : old.replaceSubterm old new = new := by
  cases old <;> exact if_pos rfl

/-- Replacing occurrences outside in leaves no choice. -/
theorem replaced_iff {old new : Term} :
    Replaced old new s t ↔ t = s.replaceSubterm old new := by
  constructor
  · intro h
    induction h with
    | here => exact (replaceSubterm_old old new).symm
    | zero other => exact (if_neg other).symm
    | var other => exact (if_neg other).symm
    | succ other _ ih => rw [replaceSubterm, if_neg other, ih]
    | sum other _ _ ihl ihr => rw [replaceSubterm, if_neg other, ihl, ihr]
    | product other _ _ ihl ihr => rw [replaceSubterm, if_neg other, ihl, ihr]
  · rintro rfl
    exact replaced_replaceSubterm old new s

theorem replaceSubterm_self : s.replaceSubterm t t = s := by
  induction s with
  | zero => simpa [replaceSubterm] using Eq.symm
  | var v => simpa [replaceSubterm] using Eq.symm
  | succ s ih => simpa [replaceSubterm, ih] using Eq.symm
  | sum l r ihl ihr => simpa [replaceSubterm, ihl, ihr] using Eq.symm
  | product l r ihl ihr => simpa [replaceSubterm, ihl, ihr] using Eq.symm

/-- A new variable holds the place of a subterm. -/
theorem replace_replaceSubterm (h : x ∉ s.occurrences) :
    (s.replaceSubterm t (var x)).replace x u = s.replaceSubterm t u := by
  induction s with
  | zero =>
    rw [replaceSubterm, replaceSubterm]
    split
    · simp
    · rfl
  | var v =>
    rw [replaceSubterm, replaceSubterm]
    split
    · simp
    · exact replace_eq_self h
  | succ s ih =>
    rw [replaceSubterm, replaceSubterm]
    split
    · simp
    · rw [replace_succ, ih h]
  | sum l r ihl ihr =>
    simp only [occurrences, List.mem_append, not_or] at h
    rw [replaceSubterm, replaceSubterm]
    split
    · simp
    · rw [replace_sum, ihl h.1, ihr h.2]
  | product l r ihl ihr =>
    simp only [occurrences, List.mem_append, not_or] at h
    rw [replaceSubterm, replaceSubterm]
    split
    · simp
    · rw [replace_product, ihl h.1, ihr h.2]

end Term

namespace Formula

variable {f : Formula} {t u : Term} {v w x : Variable}

@[simp]
theorem quantifiedVars_substitute (f : Formula) (v : Variable) (t : Term) :
    (f.substitute v t).quantifiedVars = f.quantifiedVars := by
  induction f with
  | equality l r => rfl
  | neg f ih => exact ih
  | binary op l r ihl ihr => exact congrArg₂ (· ++ ·) ihl ihr
  | quantified q w f ih =>
    rw [substitute, quantifiedVars, quantifiedVars]
    split
    · rfl
    · rw [ih]

@[simp]
theorem quantifiedVars_replaceTerm (f : Formula) (old new : Term) :
    (f.replaceTerm old new).quantifiedVars = f.quantifiedVars := by
  induction f with
  | equality l r => rfl
  | neg f ih => exact ih
  | binary op l r ihl ihr => exact congrArg₂ (· ++ ·) ihl ihr
  | quantified q w f ih =>
    rw [replaceTerm, quantifiedVars, quantifiedVars]
    split
    · rfl
    · rw [ih]

/-- A quantifier that binds no variable of the term keeps all of them free below
it. -/
theorem mem_freeVars_substitute (safe : ∀ u ∈ t.occurrences, u ∉ f.quantifiedVars) :
    w ∈ (f.substitute v t).freeVars ↔
      w ≠ v ∧ w ∈ f.freeVars ∨ v ∈ f.freeVars ∧ w ∈ t.occurrences := by
  induction f with
  | equality l r =>
    simp only [substitute, mem_freeVars_equality, Term.mem_occurrences_replace]
    rw [and_or_left, or_and_right, or_or_or_comm]
  | neg f ih => simpa only [substitute, mem_freeVars_neg] using ih safe
  | binary op l r ihl ihr =>
    simp only [quantifiedVars, List.mem_append, not_or] at safe
    simp only [substitute, mem_freeVars_binary, ihl (fun u hu => (safe u hu).1),
      ihr (fun u hu => (safe u hu).2)]
    rw [and_or_left, or_and_right, or_or_or_comm]
  | quantified q y f ih =>
    simp only [quantifiedVars, List.mem_cons, not_or] at safe
    by_cases hyv : y = v
    · subst hyv
      simp [substitute]
    · simp only [substitute, if_neg hyv, mem_freeVars_quantified, ih (fun u hu => (safe u hu).2)]
      constructor
      · rintro ⟨hwy, ⟨hwv, hw⟩ | ⟨hv, hw⟩⟩
        · exact Or.inl ⟨hwv, hwy, hw⟩
        · exact Or.inr ⟨⟨fun heq => hyv heq.symm, hv⟩, hw⟩
      · rintro (⟨hwv, hwy, hw⟩ | ⟨⟨-, hv⟩, hw⟩)
        · exact ⟨hwy, Or.inl ⟨hwv, hw⟩⟩
        · exact ⟨(safe w hw).1, Or.inr ⟨hv, hw⟩⟩

/-- A variable that is not free cannot be replaced. -/
theorem substitute_eq_self (h : v ∉ f.freeVars) : f.substitute v t = f := by
  induction f with
  | equality l r =>
    simp only [mem_freeVars_equality, not_or] at h
    rw [substitute, Term.replace_eq_self h.1, Term.replace_eq_self h.2]
  | neg f ih =>
    rw [mem_freeVars_neg] at h
    rw [substitute, ih h]
  | binary op l r ihl ihr =>
    simp only [mem_freeVars_binary, not_or] at h
    rw [substitute, ihl h.1, ihr h.2]
  | quantified q y f ih =>
    rw [mem_freeVars_quantified] at h
    rw [substitute]
    split
    · rfl
    · next hyv =>
      rw [ih (fun hv => h ⟨fun heq => hyv heq.symm, hv⟩)]

theorem substitute_self : f.substitute v (.var v) = f := by
  induction f with
  | equality l r => rw [substitute, Term.replace_self, Term.replace_self]
  | neg f ih => rw [substitute, ih]
  | binary op l r ihl ihr => rw [substitute, ihl, ihr]
  | quantified q y f ih => rw [substitute, ih, ite_self]

/-- A variable may be renamed before it is replaced, provided that no quantifier
catches the new name. -/
theorem substitute_substitute_var (hfree : v ∉ f.freeVars) (hbound : v ∉ f.quantifiedVars) :
    (f.substitute x (.var v)).substitute v t = f.substitute x t := by
  induction f with
  | equality l r =>
    simp only [mem_freeVars_equality, not_or] at hfree
    rw [substitute, substitute, substitute, Term.replace_replace_var hfree.1,
      Term.replace_replace_var hfree.2]
  | neg f ih =>
    rw [mem_freeVars_neg] at hfree
    rw [substitute, substitute, substitute, ih hfree hbound]
  | binary op l r ihl ihr =>
    simp only [mem_freeVars_binary, not_or] at hfree
    simp only [quantifiedVars, List.mem_append, not_or] at hbound
    rw [substitute, substitute, substitute, ihl hfree.1 hbound.1, ihr hfree.2 hbound.2]
  | quantified q y f ih =>
    simp only [quantifiedVars, List.mem_cons, not_or] at hbound
    have hyv : y ≠ v := fun heq => hbound.1 heq.symm
    have hfree : v ∉ f.freeVars := fun hv => hfree (mem_freeVars_quantified.mpr ⟨hbound.1, hv⟩)
    rw [substitute, substitute, substitute, if_neg hyv]
    split
    · rw [substitute_eq_self hfree]
    · rw [ih hfree hbound.2]

/-- The second formula is the first one with `new` in place of `old`, except below
quantifiers that bind a variable of `old`. -/
inductive Replaced (old new : Term) : Formula → Formula → Prop
  | equality {l r l' r' : Term} (left : Term.Replaced old new l l')
      (right : Term.Replaced old new r r') :
      Replaced old new (.equality l r) (.equality l' r')
  | neg {f g : Formula} (h : Replaced old new f g) : Replaced old new (.neg f) (.neg g)
  | binary {op : Connective} {l r l' r' : Formula} (left : Replaced old new l l')
      (right : Replaced old new r r') : Replaced old new (.binary op l r) (.binary op l' r')
  | bound {q : Quantifier} {w : Variable} {f : Formula} (bound : w ∈ old.vars) :
      Replaced old new (.quantified q w f) (.quantified q w f)
  | quantified {q : Quantifier} {w : Variable} {f g : Formula} (unbound : w ∉ old.vars)
      (h : Replaced old new f g) : Replaced old new (.quantified q w f) (.quantified q w g)

theorem replaced_replaceTerm (old new : Term) (f : Formula) :
    Replaced old new f (f.replaceTerm old new) := by
  induction f with
  | equality l r =>
    exact .equality (Term.replaced_replaceSubterm ..) (Term.replaced_replaceSubterm ..)
  | neg f ih => exact .neg ih
  | binary op l r ihl ihr => exact .binary ihl ihr
  | quantified q w f ih =>
    rw [replaceTerm]
    split
    · next hw => exact .bound (Term.mem_vars.mpr (Term.containsVar_iff.mp hw))
    · next hw =>
      refine .quantified ?_ ih
      rwa [Term.mem_vars, ← Term.containsVar_iff]

theorem replaced_iff {g : Formula} {old new : Term} :
    Replaced old new f g ↔ g = f.replaceTerm old new := by
  constructor
  · intro h
    induction h with
    | equality left right =>
      rw [replaceTerm, Term.replaced_iff.mp left, Term.replaced_iff.mp right]
    | neg _ ih => rw [replaceTerm, ih]
    | binary _ _ ihl ihr => rw [replaceTerm, ihl, ihr]
    | bound bound =>
      rw [Term.mem_vars, ← Term.containsVar_iff] at bound
      rw [replaceTerm, if_pos bound]
    | quantified unbound _ ih =>
      rw [Term.mem_vars, ← Term.containsVar_iff] at unbound
      rw [replaceTerm, if_neg unbound, ih]
  · rintro rfl
    exact replaced_replaceTerm old new f

theorem replaceTerm_self : f.replaceTerm t t = f := by
  induction f with
  | equality l r => rw [replaceTerm, Term.replaceSubterm_self, Term.replaceSubterm_self]
  | neg f ih => rw [replaceTerm, ih]
  | binary op l r ihl ihr => rw [replaceTerm, ihl, ihr]
  | quantified q y f ih => rw [replaceTerm, ih, ite_self]

/-- A new variable holds the place of a term: below a quantifier that binds a
variable of the term nothing is put in its place, and the new variable does not
occur there, either. -/
theorem substitute_replaceTerm (hfree : x ∉ f.freeVars) (hbound : x ∉ f.quantifiedVars) :
    (f.replaceTerm t (.var x)).substitute x u = f.replaceTerm t u := by
  induction f with
  | equality l r =>
    simp only [mem_freeVars_equality, not_or] at hfree
    rw [replaceTerm, replaceTerm, substitute, Term.replace_replaceSubterm hfree.1,
      Term.replace_replaceSubterm hfree.2]
  | neg f ih =>
    rw [mem_freeVars_neg] at hfree
    rw [replaceTerm, replaceTerm, substitute, ih hfree hbound]
  | binary op l r ihl ihr =>
    simp only [mem_freeVars_binary, not_or] at hfree
    simp only [quantifiedVars, List.mem_append, not_or] at hbound
    rw [replaceTerm, replaceTerm, substitute, ihl hfree.1 hbound.1, ihr hfree.2 hbound.2]
  | quantified q y f ih =>
    simp only [quantifiedVars, List.mem_cons, not_or] at hbound
    have hyx : y ≠ x := fun heq => hbound.1 heq.symm
    have hfree : x ∉ f.freeVars := fun hx => hfree (mem_freeVars_quantified.mpr ⟨hbound.1, hx⟩)
    rw [replaceTerm, replaceTerm, substitute, if_neg hyx]
    split
    · rw [substitute_eq_self hfree]
    · rw [ih hfree hbound.2]

section Placeholder

variable (new : x ∉ f.allVars)

include new

/-- Whether a variable is left over when a term is taken out does not depend on
what holds the place of the term. -/
theorem mem_freeVars_replaceTerm_congr {y : Variable} (new' : y ∉ f.allVars) (hx : v ≠ x)
    (hy : v ≠ y) :
    v ∈ (f.replaceTerm t (.var x)).freeVars ↔ v ∈ (f.replaceTerm t (.var y)).freeVars := by
  simp only [mem_allVars, not_or] at new new'
  have safe : ∀ u ∈ (Term.var y).occurrences, u ∉ (f.replaceTerm t (.var x)).quantifiedVars := by
    simpa [Term.occurrences] using new'.2
  have hrenamed : f.replaceTerm t (.var y) = (f.replaceTerm t (.var x)).substitute x (.var y) :=
    (substitute_replaceTerm new.1 new.2).symm
  rw [hrenamed, mem_freeVars_substitute safe]
  simp [Term.occurrences, hx, hy]

/-- A variable that is left over nowhere may be put in place of a term, and the
term back in its place. The two may have variables in common. -/
theorem substitute_replaceTerm_var (hbound : v ∉ f.quantifiedVars)
    (hout : v ∉ (f.replaceTerm t (.var x)).freeVars) :
    (f.replaceTerm t (.var v)).substitute v t = f := by
  simp only [mem_allVars, not_or] at new
  calc (f.replaceTerm t (.var v)).substitute v t
      = ((f.replaceTerm t (.var x)).substitute x (.var v)).substitute v t := by
        rw [substitute_replaceTerm new.1 new.2]
    _ = (f.replaceTerm t (.var x)).substitute x t :=
        substitute_substitute_var hout (by rwa [quantifiedVars_replaceTerm])
    _ = f.replaceTerm t t := substitute_replaceTerm new.1 new.2
    _ = f := replaceTerm_self

end Placeholder

end Formula

end Typographical
