import Typographical.Proofs.Variables

/-!
# Nameless forms

In the nameless form of a formula a bound occurrence of a variable tells how
many quantifiers stand between it and its own one; free variables keep their
names. Formulas that differ in the names of bound variables only have the same
nameless form.

The austere form is shown to be a normal form for this. It has the nameless form
of the formula it was made from, and it depends on nothing else. No formula is
asked to be well quantified: quantifiers may shadow each other, and a variable
may be free in one place and bound in another.
-/

namespace Typographical

/-- What an occurrence of a variable refers to: a name, or the quantifier that
many levels further up. -/
inductive Reference where
  | free (v : Variable)
  | bound (n : Nat)
  deriving DecidableEq

namespace Reference

/-- What `v` refers to below quantifiers of the variables in `scope`, the
innermost first. -/
def resolve (scope : List Variable) (v : Variable) : Reference :=
  match scope.findIdx? (· = v) with
  | some n => bound n
  | none => free v

/-- The same reference from below one more quantifier. -/
def deepen : Reference → Reference
  | free v => free v
  | bound n => bound (n + 1)

@[simp]
theorem resolve_nil (v : Variable) : resolve [] v = free v := rfl

@[simp]
theorem resolve_cons_self (scope : List Variable) (v : Variable) :
    resolve (v :: scope) v = bound 0 := by
  simp [resolve, List.findIdx?_cons]

theorem resolve_cons_of_ne (scope : List Variable) {v w : Variable} (h : v ≠ w) :
    resolve (w :: scope) v = (resolve scope v).deepen := by
  simp only [resolve, List.findIdx?_cons, decide_eq_true_eq, if_neg h.symm]
  cases scope.findIdx? (fun u => decide (u = v)) <;> rfl

theorem deepen_injective : Function.Injective deepen := by
  intro r s h
  cases r <;> cases s <;> simp_all [deepen]

theorem deepen_ne_bound_zero (r : Reference) : r.deepen ≠ bound 0 := by
  cases r <;> simp [deepen]

/-- Two variables refer to the same thing below one more quantifier each if both
belong to it, or if neither does and they did before. -/
theorem resolve_cons_eq_iff {scope scope' : List Variable} {v v' w w' : Variable} :
    resolve (w :: scope) v = resolve (w' :: scope') v' ↔
      v = w ∧ v' = w' ∨ v ≠ w ∧ v' ≠ w' ∧ resolve scope v = resolve scope' v' := by
  by_cases h : v = w
  · subst h
    by_cases h' : v' = w'
    · subst h'
      simp
    · rw [resolve_cons_self, resolve_cons_of_ne scope' h']
      have := (deepen_ne_bound_zero (resolve scope' v')).symm
      tauto
  · by_cases h' : v' = w'
    · subst h'
      rw [resolve_cons_self, resolve_cons_of_ne scope h]
      have := deepen_ne_bound_zero (resolve scope v)
      tauto
    · rw [resolve_cons_of_ne scope h, resolve_cons_of_ne scope' h', deepen_injective.eq_iff]
      tauto

end Reference

inductive NamelessTerm where
  | zero
  | var (r : Reference)
  | succ (t : NamelessTerm)
  | sum (l r : NamelessTerm)
  | product (l r : NamelessTerm)
  deriving DecidableEq

inductive Nameless where
  | equality (l r : NamelessTerm)
  | neg (f : Nameless)
  | binary (op : Connective) (l r : Nameless)
  | quantified (q : Quantifier) (f : Nameless)
  deriving DecidableEq

def Term.nameless (scope : List Variable) : Term → NamelessTerm
  | zero => .zero
  | var v => .var (.resolve scope v)
  | succ t => .succ (t.nameless scope)
  | sum l r => .sum (l.nameless scope) (r.nameless scope)
  | product l r => .product (l.nameless scope) (r.nameless scope)

namespace Formula

/-- The nameless form of a formula below quantifiers of the variables in
`scope`, the innermost first. -/
def namelessBelow : List Variable → Formula → Nameless
  | scope, equality l r => .equality (l.nameless scope) (r.nameless scope)
  | scope, neg f => .neg (f.namelessBelow scope)
  | scope, binary op l r => .binary op (l.namelessBelow scope) (r.namelessBelow scope)
  | scope, quantified q v f => .quantified q (f.namelessBelow (v :: scope))

def nameless (f : Formula) : Nameless := f.namelessBelow []

def AlphaEquivalent (f g : Formula) : Prop := f.nameless = g.nameless

instance (f g : Formula) : Decidable (f.AlphaEquivalent g) :=
  inferInstanceAs (Decidable (f.nameless = g.nameless))

end Formula

theorem Term.nameless_rename {t : Term} {name : Variable → Variable}
    {olds news : List Variable}
    (same : ∀ v ∈ t.occurrences, Reference.resolve news (name v) = .resolve olds v) :
    (t.rename name).nameless news = t.nameless olds := by
  induction t with
  | zero => rfl
  | var v => exact congrArg NamelessTerm.var (same v (by simp [occurrences]))
  | succ t ih => exact congrArg NamelessTerm.succ (ih same)
  | sum l r ihl ihr =>
    have hl := ihl (fun v hv => same v (List.mem_append_left _ hv))
    have hr := ihr (fun v hv => same v (List.mem_append_right _ hv))
    exact congrArg₂ NamelessTerm.sum hl hr
  | product l r ihl ihr =>
    have hl := ihl (fun v hv => same v (List.mem_append_left _ hv))
    have hr := ihr (fun v hv => same v (List.mem_append_right _ hv))
    exact congrArg₂ NamelessTerm.product hl hr

namespace Formula

/-- Names that are taken stay taken. -/
theorem mem_renameBound_snd {f : Formula} {used : SortedSet Variable}
    {name : Variable → Variable} {v : Variable} (h : v ∈ used) :
    v ∈ (f.renameBound used name).2 := by
  induction f generalizing used name with
  | equality l r => exact h
  | neg f ih => exact ih h
  | binary op l r ihl ihr => exact ihr (ihl h)
  | quantified q w f ih => exact ih (SortedSet.mem_insert.mpr (Or.inr h))

/-- The new name of a variable must be taken already, so that a quantifier
further down cannot get it, and must refer to what the variable referred to. -/
theorem namelessBelow_renameBound {f : Formula} {used : SortedSet Variable}
    {name : Variable → Variable} {olds news : List Variable}
    (taken : ∀ v ∈ f.freeVars, name v ∈ used)
    (same : ∀ v ∈ f.freeVars, Reference.resolve news (name v) = .resolve olds v) :
    (f.renameBound used name).1.namelessBelow news = f.namelessBelow olds := by
  induction f generalizing used name olds news with
  | equality l r =>
    have hl := Term.nameless_rename (t := l) (fun v hv => same v (by simp [hv]))
    have hr := Term.nameless_rename (t := r) (fun v hv => same v (by simp [hv]))
    exact congrArg₂ Nameless.equality hl hr
  | neg f ih =>
    simp only [mem_freeVars_neg] at taken same
    exact congrArg Nameless.neg (ih taken same)
  | binary op l r ihl ihr =>
    simp only [mem_freeVars_binary] at taken same
    have hl := ihl (fun v hv => taken v (Or.inl hv)) (fun v hv => same v (Or.inl hv))
    have htaken : ∀ v ∈ r.freeVars, name v ∈ (l.renameBound used name).2 :=
      fun v hv => mem_renameBound_snd (taken v (Or.inr hv))
    have hr := ihr htaken (fun v hv => same v (Or.inr hv))
    exact congrArg₂ (Nameless.binary op) hl hr
  | quantified q w f ih =>
    simp only [mem_freeVars_quantified] at taken same
    refine congrArg (Nameless.quantified q) (ih ?_ ?_)
    · intro v hv
      by_cases hvw : v = w
      · simp [hvw]
      · simp [hvw, taken v ⟨hvw, hv⟩]
    · intro v hv
      rw [Reference.resolve_cons_eq_iff]
      by_cases hvw : v = w
      · simp [hvw]
      · have hne : name v ≠ fresh used := by
          intro heq
          exact fresh_not_mem used (heq ▸ taken v ⟨hvw, hv⟩)
        simp [hvw, hne, same v ⟨hvw, hv⟩]

theorem nameless_austere (f : Formula) : f.austere.nameless = f.nameless :=
  namelessBelow_renameBound (fun _ hv => hv) (fun _ _ => rfl)

end Formula

def NamelessTerm.names : NamelessTerm → List Variable
  | zero => []
  | var (.free v) => [v]
  | var (.bound _) => []
  | succ t => t.names
  | sum l r => l.names ++ r.names
  | product l r => l.names ++ r.names

def Nameless.names : Nameless → List Variable
  | equality l r => l.names ++ r.names
  | neg f => f.names
  | binary _ l r => l.names ++ r.names
  | quantified _ f => f.names

theorem Reference.resolve_eq_free_iff {scope : List Variable} {v w : Variable} :
    resolve scope v = free w ↔ v = w ∧ v ∉ scope := by
  induction scope with
  | nil => simp
  | cons u scope ih =>
    by_cases h : v = u
    · simp [h]
    · rw [resolve_cons_of_ne scope h, ← show deepen (free w) = free w from rfl,
        deepen_injective.eq_iff, ih]
      simp [h]

theorem Term.names_nameless (t : Term) (scope : List Variable) :
    (t.nameless scope).names = t.occurrences.filter (· ∉ scope) := by
  induction t with
  | zero => rfl
  | var v =>
    by_cases h : v ∈ scope
    · cases hr : Reference.resolve scope v with
      | free w => exact absurd h (Reference.resolve_eq_free_iff.mp hr).2
      | bound n => simp [nameless, hr, NamelessTerm.names, occurrences, h]
    · have hr : Reference.resolve scope v = .free v := Reference.resolve_eq_free_iff.mpr ⟨rfl, h⟩
      simp [nameless, hr, NamelessTerm.names, occurrences, h]
  | succ t ih => exact ih
  | sum l r ihl ihr =>
    simp only [nameless, NamelessTerm.names, occurrences, ihl, ihr, List.filter_append]
  | product l r ihl ihr =>
    simp only [nameless, NamelessTerm.names, occurrences, ihl, ihr, List.filter_append]

theorem Term.mem_names_nameless {t : Term} {scope : List Variable} {v : Variable} :
    v ∈ (t.nameless scope).names ↔ v ∈ t.occurrences ∧ v ∉ scope := by
  rw [names_nameless, List.mem_filter, decide_eq_true_eq]

namespace Formula

theorem mem_names_namelessBelow {f : Formula} {scope : List Variable} {v : Variable} :
    v ∈ (f.namelessBelow scope).names ↔ v ∈ f.freeVars ∧ v ∉ scope := by
  induction f generalizing scope with
  | equality l r =>
    simp only [namelessBelow, Nameless.names, List.mem_append, Term.mem_names_nameless,
      mem_freeVars_equality]
    tauto
  | neg f ih => simpa [namelessBelow, Nameless.names] using ih
  | binary op l r ihl ihr =>
    simp only [namelessBelow, Nameless.names, List.mem_append, ihl, ihr, mem_freeVars_binary]
    tauto
  | quantified q w f ih =>
    simp only [namelessBelow, Nameless.names, ih, mem_freeVars_quantified, List.mem_cons]
    tauto

theorem mem_names_nameless {f : Formula} {v : Variable} :
    v ∈ f.nameless.names ↔ v ∈ f.freeVars :=
  mem_names_namelessBelow.trans (and_iff_left List.not_mem_nil)

theorem AlphaEquivalent.freeVars_eq {f g : Formula} (h : f.AlphaEquivalent g) :
    f.freeVars = g.freeVars := by
  apply SortedSet.ext_mem
  intro v
  rw [← mem_names_nameless, ← mem_names_nameless, h]

end Formula

theorem Term.rename_eq_of_nameless_eq {t u : Term} {scope scope' : List Variable}
    {name name' : Variable → Variable} (h : t.nameless scope = u.nameless scope')
    (agree : ∀ v ∈ t.occurrences, ∀ w ∈ u.occurrences,
      Reference.resolve scope v = .resolve scope' w → name v = name' w) :
    t.rename name = u.rename name' := by
  induction t generalizing u with
  | zero => cases u <;> simp_all [nameless, rename, bind]
  | var v =>
    cases u with
    | var w =>
      have hr : Reference.resolve scope v = .resolve scope' w := by simpa [nameless] using h
      exact congrArg Term.var (agree v (by simp [occurrences]) w (by simp [occurrences]) hr)
    | _ => simp [nameless] at h
  | succ t ih =>
    cases u with
    | succ u =>
      have ht : t.nameless scope = u.nameless scope' := by simpa [nameless] using h
      exact congrArg Term.succ (ih ht agree)
    | _ => simp [nameless] at h
  | sum l r ihl ihr =>
    cases u with
    | sum l' r' =>
      simp only [nameless, NamelessTerm.sum.injEq] at h
      simp only [occurrences, List.mem_append] at agree
      have hl := ihl h.1 (fun v hv w hw => agree v (Or.inl hv) w (Or.inl hw))
      have hr := ihr h.2 (fun v hv w hw => agree v (Or.inr hv) w (Or.inr hw))
      exact congrArg₂ Term.sum hl hr
    | _ => simp [nameless] at h
  | product l r ihl ihr =>
    cases u with
    | product l' r' =>
      simp only [nameless, NamelessTerm.product.injEq] at h
      simp only [occurrences, List.mem_append] at agree
      have hl := ihl h.1 (fun v hv w hw => agree v (Or.inl hv) w (Or.inl hw))
      have hr := ihr h.2 (fun v hv w hw => agree v (Or.inr hv) w (Or.inr hw))
      exact congrArg₂ Term.product hl hr
    | _ => simp [nameless] at h

namespace Formula

/-- Two formulas are walked through side by side. They give out the same names
in the same order, as long as variables that refer to the same thing have got
the same name so far. -/
theorem renameBound_eq_of_namelessBelow_eq {f g : Formula} {used : SortedSet Variable}
    {scope scope' : List Variable} {name name' : Variable → Variable}
    (h : f.namelessBelow scope = g.namelessBelow scope')
    (agree : ∀ v ∈ f.freeVars, ∀ w ∈ g.freeVars,
      Reference.resolve scope v = .resolve scope' w → name v = name' w) :
    f.renameBound used name = g.renameBound used name' := by
  induction f generalizing g used scope scope' name name' with
  | equality l r =>
    cases g with
    | equality l' r' =>
      simp only [namelessBelow, Nameless.equality.injEq] at h
      simp only [mem_freeVars_equality] at agree
      have hl := Term.rename_eq_of_nameless_eq h.1
        (fun v hv w hw => agree v (Or.inl hv) w (Or.inl hw))
      have hr := Term.rename_eq_of_nameless_eq h.2
        (fun v hv w hw => agree v (Or.inr hv) w (Or.inr hw))
      rw [renameBound, renameBound, hl, hr]
    | _ => simp [namelessBelow] at h
  | neg f ih =>
    cases g with
    | neg g =>
      simp only [namelessBelow, Nameless.neg.injEq] at h
      simp only [mem_freeVars_neg] at agree
      rw [renameBound, renameBound, ih h agree]
    | _ => simp [namelessBelow] at h
  | binary op l r ihl ihr =>
    cases g with
    | binary op' l' r' =>
      simp only [namelessBelow, Nameless.binary.injEq] at h
      simp only [mem_freeVars_binary] at agree
      obtain ⟨rfl, hl, hr⟩ := h
      have hl : ∀ used, l.renameBound used name = l'.renameBound used name' :=
        fun _ => ihl hl (fun v hv w hw => agree v (Or.inl hv) w (Or.inl hw))
      have hr : ∀ used, r.renameBound used name = r'.renameBound used name' :=
        fun _ => ihr hr (fun v hv w hw => agree v (Or.inr hv) w (Or.inr hw))
      simp only [renameBound, hl, hr]
    | _ => simp [namelessBelow] at h
  | quantified q v f ih =>
    cases g with
    | quantified q' v' g =>
      simp only [namelessBelow, Nameless.quantified.injEq] at h
      simp only [mem_freeVars_quantified] at agree
      obtain ⟨rfl, h⟩ := h
      have hbody : f.renameBound (used.insert (fresh used))
            (fun u => if u = v then fresh used else name u) =
          g.renameBound (used.insert (fresh used))
            (fun u => if u = v' then fresh used else name' u) := by
        refine ih h ?_
        intro u hu w hw hr
        rcases Reference.resolve_cons_eq_iff.mp hr with ⟨huv, hwv⟩ | ⟨huv, hwv, hr⟩
        · simp [huv, hwv]
        · simpa [huv, hwv] using agree u ⟨huv, hu⟩ w ⟨hwv, hw⟩ hr
      simp only [renameBound, hbody]
    | _ => simp [namelessBelow] at h

theorem AlphaEquivalent.austere_eq {f g : Formula} (h : f.AlphaEquivalent g) :
    f.austere = g.austere := by
  have hr : f.renameBound g.freeVars id = g.renameBound g.freeVars id :=
    renameBound_eq_of_namelessBelow_eq h (fun v _ w _ hr => by simpa using hr)
  rw [austere, austere, h.freeVars_eq, hr]

theorem austere_eq_iff {f g : Formula} : f.austere = g.austere ↔ f.AlphaEquivalent g := by
  constructor
  · intro h
    exact (nameless_austere f).symm.trans ((congrArg nameless h).trans (nameless_austere g))
  · exact AlphaEquivalent.austere_eq

/-- The austere form is a normal form for equality up to the names of bound
variables. -/
theorem austere_canonical (f g : Formula) :
    f.austere.AlphaEquivalent f ∧
      (f.austereEquals g = true ↔ f.AlphaEquivalent g) ∧
      f.austere.austere = f.austere := by
  refine ⟨nameless_austere f, ?_, austere_eq_iff.mpr (nameless_austere f)⟩
  rw [austereEquals, decide_eq_true_iff, austere_eq_iff]

end Formula

end Typographical
