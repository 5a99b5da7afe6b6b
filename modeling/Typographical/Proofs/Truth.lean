import Mathlib.Logic.Function.Basic
import Mathlib.Tactic.Common
import Typographical.Axioms
import Typographical.Proofs.Nameless

/-!
# Truth

Formulas are read classically over the natural numbers. Zero and successor have
their usual meaning; what sums and products mean is left open, so that a
statement about all interpretations does not depend on it.

The truth of a formula depends on its free variables only, and it is kept by
whatever keeps the nameless form. Substitution is truth at a changed valuation,
provided that no variable of the substituted term gets caught by a quantifier.
-/

namespace Typographical

/-- A meaning for sums and products. -/
structure Interpretation where
  add : Nat → Nat → Nat
  mul : Nat → Nat → Nat

def Interpretation.standard : Interpretation := ⟨(· + ·), (· * ·)⟩

abbrev Valuation := Variable → Nat

def Connective.Holds : Connective → Prop → Prop → Prop
  | and, p, q => p ∧ q
  | or, p, q => p ∨ q
  | implies, p, q => p → q

def Quantifier.Holds : Quantifier → (Nat → Prop) → Prop
  | forAll, p => ∀ n, p n
  | thereIs, p => ∃ n, p n

variable (I : Interpretation)

def Term.value (σ : Valuation) : Term → Nat
  | zero => 0
  | var v => σ v
  | succ t => t.value σ + 1
  | sum l r => I.add (l.value σ) (r.value σ)
  | product l r => I.mul (l.value σ) (r.value σ)

namespace Formula

def Holds : Formula → Valuation → Prop
  | equality l r, σ => l.value I σ = r.value I σ
  | neg f, σ => ¬ f.Holds σ
  | binary op l r, σ => op.Holds (l.Holds σ) (r.Holds σ)
  | quantified q v f, σ => q.Holds (fun n => f.Holds (Function.update σ v n))

def Valid (f : Formula) : Prop := ∀ σ, f.Holds I σ

end Formula

theorem Connective.holds_congr (op : Connective) {p p' q q' : Prop} (hp : p ↔ p')
    (hq : q ↔ q') : op.Holds p q ↔ op.Holds p' q' := by
  rw [propext hp, propext hq]

theorem Quantifier.holds_congr (q : Quantifier) {p p' : Nat → Prop} (h : ∀ n, p n ↔ p' n) :
    q.Holds p ↔ q.Holds p' := by
  rw [funext (fun n => propext (h n))]

variable {I}

theorem Term.value_congr {t : Term} {σ τ : Valuation} (h : ∀ v ∈ t.occurrences, σ v = τ v) :
    t.value I σ = t.value I τ := by
  induction t with
  | zero => rfl
  | var v => exact h v (by simp [occurrences])
  | succ t ih => exact congrArg (· + 1) (ih h)
  | sum l r ihl ihr =>
    simp only [occurrences, List.mem_append] at h
    exact congrArg₂ I.add (ihl (fun v hv => h v (Or.inl hv))) (ihr (fun v hv => h v (Or.inr hv)))
  | product l r ihl ihr =>
    simp only [occurrences, List.mem_append] at h
    exact congrArg₂ I.mul (ihl (fun v hv => h v (Or.inl hv))) (ihr (fun v hv => h v (Or.inr hv)))

theorem Term.value_update {t : Term} {σ : Valuation} {v : Variable} {n : Nat}
    (h : v ∉ t.occurrences) : t.value I (Function.update σ v n) = t.value I σ := by
  apply value_congr
  intro u hu
  have hne : u ≠ v := fun heq => h (heq ▸ hu)
  exact Function.update_of_ne hne n σ

namespace Formula

theorem holds_congr {f : Formula} {σ τ : Valuation} (h : ∀ v ∈ f.freeVars, σ v = τ v) :
    f.Holds I σ ↔ f.Holds I τ := by
  induction f generalizing σ τ with
  | equality l r =>
    simp only [mem_freeVars_equality] at h
    rw [Holds, Holds, Term.value_congr (fun v hv => h v (Or.inl hv)),
      Term.value_congr (fun v hv => h v (Or.inr hv))]
  | neg f ih =>
    simp only [mem_freeVars_neg] at h
    exact not_congr (ih h)
  | binary op l r ihl ihr =>
    simp only [mem_freeVars_binary] at h
    exact op.holds_congr (ihl (fun v hv => h v (Or.inl hv))) (ihr (fun v hv => h v (Or.inr hv)))
  | quantified q w f ih =>
    simp only [mem_freeVars_quantified] at h
    refine q.holds_congr (fun n => ih ?_)
    intro v hv
    by_cases hvw : v = w
    · simp [hvw]
    · simpa [hvw] using h v ⟨hvw, hv⟩

theorem holds_update {f : Formula} {σ : Valuation} {v : Variable} {n : Nat}
    (h : v ∉ f.freeVars) : f.Holds I (Function.update σ v n) ↔ f.Holds I σ := by
  apply holds_congr
  intro u hu
  have hne : u ≠ v := fun heq => h (heq ▸ hu)
  exact Function.update_of_ne hne n σ

theorem valid_forAll {f : Formula} {v : Variable} :
    (forAll v f).Valid I ↔ f.Valid I := by
  constructor
  · intro h σ
    have hv : f.Holds I (Function.update σ v (σ v)) := h σ (σ v)
    rwa [Function.update_eq_self] at hv
  · intro h σ n
    exact h _

end Formula

/-- The number that a reference denotes, where `env` holds the values of the
quantifiers passed, the innermost first. -/
def Reference.value (σ : Valuation) (env : List Nat) : Reference → Nat
  | free v => σ v
  | bound n => env.getD n 0

variable (I) in
def NamelessTerm.value (σ : Valuation) (env : List Nat) : NamelessTerm → Nat
  | zero => 0
  | var r => r.value σ env
  | succ t => t.value σ env + 1
  | sum l r => I.add (l.value σ env) (r.value σ env)
  | product l r => I.mul (l.value σ env) (r.value σ env)

variable (I) in
def Nameless.Holds (σ : Valuation) : List Nat → Nameless → Prop
  | env, equality l r => l.value I σ env = r.value I σ env
  | env, neg f => ¬ f.Holds σ env
  | env, binary op l r => op.Holds (l.Holds σ env) (r.Holds σ env)
  | env, quantified q f => q.Holds (fun n => f.Holds σ (n :: env))

theorem Reference.value_deepen (r : Reference) (σ : Valuation) (n : Nat) (env : List Nat) :
    r.deepen.value σ (n :: env) = r.value σ env := by
  cases r <;> simp [deepen, value]

theorem Term.value_nameless {t : Term} {σ τ : Valuation} {scope : List Variable}
    {env : List Nat} (h : ∀ v, (Reference.resolve scope v).value σ env = τ v) :
    (t.nameless scope).value I σ env = t.value I τ := by
  induction t with
  | zero => rfl
  | var v => exact h v
  | succ t ih => exact congrArg (· + 1) ih
  | sum l r ihl ihr => exact congrArg₂ I.add ihl ihr
  | product l r ihl ihr => exact congrArg₂ I.mul ihl ihr

namespace Formula

theorem holds_namelessBelow {f : Formula} {σ τ : Valuation} {scope : List Variable}
    {env : List Nat} (h : ∀ v, (Reference.resolve scope v).value σ env = τ v) :
    (f.namelessBelow scope).Holds I σ env ↔ f.Holds I τ := by
  induction f generalizing τ scope env with
  | equality l r =>
    rw [namelessBelow, Nameless.Holds, Holds, Term.value_nameless h, Term.value_nameless h]
  | neg f ih => exact not_congr (ih h)
  | binary op l r ihl ihr => exact op.holds_congr (ihl h) (ihr h)
  | quantified q w f ih =>
    refine q.holds_congr (fun n => ih ?_)
    intro v
    by_cases hvw : v = w
    · simp [hvw, Reference.value]
    · rw [Reference.resolve_cons_of_ne scope hvw, Reference.value_deepen, h,
        Function.update_of_ne hvw]

theorem holds_nameless {f : Formula} {σ : Valuation} :
    f.nameless.Holds I σ [] ↔ f.Holds I σ :=
  holds_namelessBelow (fun _ => rfl)

/-- The names of bound variables do not matter for truth. -/
theorem AlphaEquivalent.holds_iff {f g : Formula} (h : f.AlphaEquivalent g) (σ : Valuation) :
    f.Holds I σ ↔ g.Holds I σ := by
  rw [← holds_nameless, ← holds_nameless, h]

theorem AlphaEquivalent.valid_iff {f g : Formula} (h : f.AlphaEquivalent g) :
    f.Valid I ↔ g.Valid I :=
  forall_congr' h.holds_iff

theorem valid_stripForAll {f : Formula} : f.stripForAll.Valid I ↔ f.Valid I := by
  induction f with
  | quantified q v f ih =>
    cases q with
    | forAll => exact ih.trans valid_forAll.symm
    | thereIs => exact Iff.rfl
  | _ => exact Iff.rfl

theorem valid_foldr_forAll (vs : List Variable) (f : Formula) :
    (vs.foldr forAll f).Valid I ↔ f.Valid I := by
  induction vs with
  | nil => exact Iff.rfl
  | cons v vs ih => exact valid_forAll.trans ih

/-- A formula and its key are true under every valuation together. -/
theorem valid_key {f : Formula} : f.key.Valid I ↔ f.Valid I :=
  calc f.key.Valid I
      ↔ f.stripForAll.closure.Valid I := AlphaEquivalent.valid_iff (nameless_austere _)
    _ ↔ f.stripForAll.Valid I := valid_foldr_forAll _ _
    _ ↔ f.Valid I := valid_stripForAll

end Formula

end Typographical
