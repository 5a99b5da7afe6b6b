import Mathlib.Data.List.Nodup
import Mathlib.Data.Set.Function
import Mathlib.Logic.Function.Iterate
import Typographical.Proofs.Deduction
import Typographical.Proofs.Nameless

/-!
# Variants of axioms

A formula counts as an axiom if the two have the same key, and a key is made in
three steps: outermost universal quantifiers are dropped, all free variables are
quantified in the order in which they first occur, and bound variables get
austere names. Here it is shown what the three together decide. Without their
outermost universal quantifiers, the formula and the axiom must be variants: a
renaming that sends no two free variables of the one to the same variable turns
its nameless form into that of the other.

Quantifying the free variables replaces each name by its place in the order of
first occurrence. So a renaming keeps the closed form if it keeps the order, and
an injective one does; conversely, the two orders read side by side are the
renaming.
-/

namespace Typographical

namespace Reference

def rename (ρ : Variable → Variable) : Reference → Reference
  | free v => free (ρ v)
  | bound n => bound n

theorem deepen_rename (ρ : Variable → Variable) (r : Reference) :
    (r.rename ρ).deepen = r.deepen.rename ρ := by
  cases r <;> rfl

/-- The quantifiers above decide before the renaming does. -/
theorem rename_resolve_cons_eq_iff {ρ : Variable → Variable} {scope scope' : List Variable}
    {v v' w w' : Variable} :
    (resolve (w :: scope) v).rename ρ = resolve (w' :: scope') v' ↔
      v = w ∧ v' = w' ∨ v ≠ w ∧ v' ≠ w' ∧ (resolve scope v).rename ρ = resolve scope' v' := by
  by_cases h : v = w
  · subst h
    rw [resolve_cons_self, rename, ← resolve_cons_self scope v, resolve_cons_eq_iff]
    simp
  · by_cases h' : v' = w'
    · subst h'
      rw [resolve_cons_self, resolve_cons_of_ne scope h, ← deepen_rename]
      have := deepen_ne_bound_zero ((resolve scope v).rename ρ)
      tauto
    · rw [resolve_cons_of_ne scope h, resolve_cons_of_ne scope' h', ← deepen_rename,
        deepen_injective.eq_iff]
      tauto

/-- Below the same quantifiers different variables refer to different things. -/
theorem resolve_injective (scope : List Variable) : Function.Injective (resolve scope) := by
  intro v w h
  induction scope with
  | nil => simpa using h
  | cons u scope ih =>
    rcases resolve_cons_eq_iff.mp h with ⟨hv, hw⟩ | ⟨-, -, h⟩
    · exact hv.trans hw.symm
    · exact ih h

/-- A renaming that keeps the quantified variables apart keeps their places. -/
theorem resolve_map {ρ : Variable → Variable} {scope : List Variable} {v : Variable}
    (hρ : Set.InjOn ρ {u | u ∈ scope}) (hv : v ∈ scope) :
    resolve (scope.map ρ) (ρ v) = resolve scope v := by
  induction scope with
  | nil => cases hv
  | cons u scope ih =>
    rw [List.map_cons, resolve_cons_eq_iff]
    by_cases h : v = u
    · simp [h]
    · have hne : ρ v ≠ ρ u := fun heq => h (hρ hv (by simp) heq)
      have hrest := ih (hρ.mono (fun _ hu => List.mem_cons_of_mem _ hu))
        (List.mem_of_ne_of_mem h hv)
      exact Or.inr ⟨hne, h, hrest⟩

end Reference

def NamelessTerm.rename (ρ : Variable → Variable) : NamelessTerm → NamelessTerm
  | zero => zero
  | var r => var (r.rename ρ)
  | succ t => succ (t.rename ρ)
  | sum l r => sum (l.rename ρ) (r.rename ρ)
  | product l r => product (l.rename ρ) (r.rename ρ)

def Nameless.rename (ρ : Variable → Variable) : Nameless → Nameless
  | equality l r => equality (l.rename ρ) (r.rename ρ)
  | neg f => neg (f.rename ρ)
  | binary op l r => binary op (l.rename ρ) (r.rename ρ)
  | quantified q f => quantified q (f.rename ρ)

theorem NamelessTerm.names_rename (ρ : Variable → Variable) (t : NamelessTerm) :
    (t.rename ρ).names = t.names.map ρ := by
  induction t with
  | zero => rfl
  | var r => cases r <;> rfl
  | succ t ih => exact ih
  | sum l r ihl ihr => simp only [rename, names, ihl, ihr, List.map_append]
  | product l r ihl ihr => simp only [rename, names, ihl, ihr, List.map_append]

theorem Nameless.names_rename (ρ : Variable → Variable) (f : Nameless) :
    (f.rename ρ).names = f.names.map ρ := by
  induction f with
  | equality l r => simp only [rename, names, NamelessTerm.names_rename, List.map_append]
  | neg f ih => exact ih
  | binary op l r ihl ihr => simp only [rename, names, ihl, ihr, List.map_append]
  | quantified q f ih => exact ih

/-- Two terms that agree under one reading of their variables agree under every
reading that identifies the same variables. -/
theorem Term.nameless_eq_iff {ρ : Variable → Variable} {olds olds' news news' : List Variable}
    {t u : Term} (same : ∀ v ∈ t.occurrences, ∀ w ∈ u.occurrences,
      Reference.resolve news v = .resolve news' w ↔
        (Reference.resolve olds v).rename ρ = .resolve olds' w) :
    t.nameless news = u.nameless news' ↔ (t.nameless olds).rename ρ = u.nameless olds' := by
  induction t generalizing u with
  | zero => cases u <;> simp [nameless, NamelessTerm.rename]
  | var v =>
    cases u with
    | var w => simpa [nameless, NamelessTerm.rename, occurrences] using same
    | _ => simp [nameless, NamelessTerm.rename]
  | succ t ih =>
    cases u with
    | succ u =>
      simp only [nameless, NamelessTerm.rename, NamelessTerm.succ.injEq]
      exact ih same
    | _ => simp [nameless, NamelessTerm.rename]
  | sum l r ihl ihr =>
    cases u with
    | sum l' r' =>
      simp only [occurrences, List.mem_append] at same
      simp only [nameless, NamelessTerm.rename, NamelessTerm.sum.injEq]
      exact and_congr (ihl fun v hv w hw => same v (Or.inl hv) w (Or.inl hw))
        (ihr fun v hv w hw => same v (Or.inr hv) w (Or.inr hw))
    | _ => simp [nameless, NamelessTerm.rename]
  | product l r ihl ihr =>
    cases u with
    | product l' r' =>
      simp only [occurrences, List.mem_append] at same
      simp only [nameless, NamelessTerm.rename, NamelessTerm.product.injEq]
      exact and_congr (ihl fun v hv w hw => same v (Or.inl hv) w (Or.inl hw))
        (ihr fun v hv w hw => same v (Or.inr hv) w (Or.inr hw))
    | _ => simp [nameless, NamelessTerm.rename]

namespace Formula

/-- The same of formulas, by going through both side by side. Each quantifier on
the way down is added to all four scopes. -/
theorem namelessBelow_eq_iff {ρ : Variable → Variable} {olds olds' news news' : List Variable}
    {f g : Formula} (same : ∀ v ∈ f.freeVars, ∀ w ∈ g.freeVars,
      Reference.resolve news v = .resolve news' w ↔
        (Reference.resolve olds v).rename ρ = .resolve olds' w) :
    f.namelessBelow news = g.namelessBelow news' ↔
      (f.namelessBelow olds).rename ρ = g.namelessBelow olds' := by
  induction f generalizing g olds olds' news news' with
  | equality l r =>
    cases g with
    | equality l' r' =>
      simp only [mem_freeVars_equality] at same
      simp only [namelessBelow, Nameless.rename, Nameless.equality.injEq]
      exact and_congr (Term.nameless_eq_iff fun v hv w hw => same v (Or.inl hv) w (Or.inl hw))
        (Term.nameless_eq_iff fun v hv w hw => same v (Or.inr hv) w (Or.inr hw))
    | _ => simp [namelessBelow, Nameless.rename]
  | neg f ih =>
    cases g with
    | neg g =>
      simp only [mem_freeVars_neg] at same
      simpa [namelessBelow, Nameless.rename] using ih same
    | _ => simp [namelessBelow, Nameless.rename]
  | binary op l r ihl ihr =>
    cases g with
    | binary op' l' r' =>
      simp only [mem_freeVars_binary] at same
      simp only [namelessBelow, Nameless.rename, Nameless.binary.injEq]
      exact and_congr_right' (and_congr
        (ihl fun v hv w hw => same v (Or.inl hv) w (Or.inl hw))
        (ihr fun v hv w hw => same v (Or.inr hv) w (Or.inr hw)))
    | _ => simp [namelessBelow, Nameless.rename]
  | quantified q u f ih =>
    cases g with
    | quantified q' u' g =>
      simp only [mem_freeVars_quantified] at same
      simp only [namelessBelow, Nameless.rename, Nameless.quantified.injEq]
      refine and_congr_right' (ih ?_)
      intro v hv w hw
      rw [Reference.resolve_cons_eq_iff, Reference.rename_resolve_cons_eq_iff]
      refine or_congr_right (and_congr_right fun hvu => and_congr_right fun hwu => ?_)
      exact same v ⟨hvu, hv⟩ w ⟨hwu, hw⟩
    | _ => simp [namelessBelow, Nameless.rename]

/-- One formula is got from another by renaming bound variables in any way, and
free variables in a way that keeps them apart. -/
def Variant (f g : Formula) : Prop :=
  ∃ ρ, Set.InjOn ρ {v | v ∈ f.freeVars} ∧ f.nameless.rename ρ = g.nameless

end Formula

section FirstOccurrences

variable {α β : Type} [DecidableEq α] [DecidableEq β]

@[simp]
theorem mem_firstOccurrences {a : α} {xs : List α} : a ∈ firstOccurrences xs ↔ a ∈ xs := by
  induction xs with
  | nil => rfl
  | cons x xs ih =>
    simp only [firstOccurrences, List.mem_cons, List.mem_filter, ih, decide_eq_true_eq]
    tauto

theorem nodup_firstOccurrences (xs : List α) : (firstOccurrences xs).Nodup := by
  induction xs with
  | nil => exact List.nodup_nil
  | cons x xs ih =>
    rw [firstOccurrences, List.nodup_cons]
    exact ⟨by simp, ih.filter _⟩

theorem firstOccurrences_map {ρ : α → β} {xs : List α} (hρ : Set.InjOn ρ {a | a ∈ xs}) :
    firstOccurrences (xs.map ρ) = (firstOccurrences xs).map ρ := by
  induction xs with
  | nil => rfl
  | cons x xs ih =>
    have hrest := ih (hρ.mono fun _ ha => List.mem_cons_of_mem _ ha)
    rw [List.map_cons, firstOccurrences, firstOccurrences, hrest, List.map_cons, List.filter_map]
    congr 2
    apply List.filter_congr
    intro a ha
    have ha : a ∈ xs := mem_firstOccurrences.mp ha
    have hiff : ρ a = ρ x ↔ a = x := hρ.eq_iff (List.mem_cons_of_mem _ ha) List.mem_cons_self
    simp [hiff]

end FirstOccurrences

namespace Formula

theorem freeOccurrences_eq_names {f : Formula} {bound : SortedSet Variable}
    {scope : List Variable} (h : ∀ v, v ∈ bound ↔ v ∈ scope) :
    f.freeOccurrences bound = (f.namelessBelow scope).names := by
  induction f generalizing bound scope with
  | equality l r =>
    rw [freeOccurrences, namelessBelow, Nameless.names, Term.names_nameless, Term.names_nameless,
      ← List.filter_append]
    apply List.filter_congr
    intro v _
    by_cases hv : v ∈ scope
    · simp [SortedSet.contains_iff.mpr ((h v).mpr hv), hv]
    · simp [SortedSet.contains_eq_false_iff.mpr (fun hb => hv ((h v).mp hb)), hv]
  | neg f ih => exact ih h
  | binary op l r ihl ihr => exact congrArg₂ (· ++ ·) (ihl h) (ihr h)
  | quantified q w f ih =>
    rw [freeOccurrences_quantified]
    refine ih ?_
    intro v
    rw [SortedSet.mem_insert, List.mem_cons, h]

theorem freeVarsInOrder_eq (f : Formula) :
    f.freeVarsInOrder = firstOccurrences f.nameless.names :=
  congrArg firstOccurrences
    (freeOccurrences_eq_names fun v => by simp [SortedSet.not_mem_empty v])

@[simp]
theorem mem_freeVarsInOrder {f : Formula} {v : Variable} :
    v ∈ f.freeVarsInOrder ↔ v ∈ f.freeVars :=
  mem_firstOccurrences.trans mem_freeVars.symm

theorem nodup_freeVarsInOrder (f : Formula) : f.freeVarsInOrder.Nodup :=
  nodup_firstOccurrences _

/-- A renaming that keeps the free variables apart keeps their order. -/
theorem freeVarsInOrder_eq_map {f g : Formula} {ρ : Variable → Variable}
    (hρ : Set.InjOn ρ {v | v ∈ f.freeVars}) (h : f.nameless.rename ρ = g.nameless) :
    g.freeVarsInOrder = f.freeVarsInOrder.map ρ := by
  have hnames : Set.InjOn ρ {v | v ∈ f.nameless.names} := by
    simpa only [mem_names_nameless] using hρ
  calc g.freeVarsInOrder
      = firstOccurrences (f.nameless.rename ρ).names := by rw [h, freeVarsInOrder_eq]
    _ = firstOccurrences (f.nameless.names.map ρ) := by rw [Nameless.names_rename]
    _ = f.freeVarsInOrder.map ρ := by rw [firstOccurrences_map hnames, freeVarsInOrder_eq]

theorem namelessBelow_foldr_forAll (vs scope : List Variable) (f : Formula) :
    (vs.foldr forAll f).namelessBelow scope =
      (Nameless.quantified .forAll)^[vs.length] (f.namelessBelow (vs.reverse ++ scope)) := by
  induction vs generalizing scope with
  | nil => rfl
  | cons v vs ih =>
    rw [List.foldr_cons, namelessBelow, ih, List.length_cons, Function.iterate_succ_apply',
      List.reverse_cons, List.append_assoc, List.singleton_append]

theorem namelessBelow_stripForAll_ne (f : Formula) (scope : List Variable) (g : Nameless) :
    f.stripForAll.namelessBelow scope ≠ .quantified .forAll g := by
  induction f with
  | quantified q v f ih =>
    cases q with
    | forAll => exact ih
    | thereIs => simp [stripForAll, namelessBelow]
  | _ => simp [stripForAll, namelessBelow]

end Formula

/-- Universal quantifiers can be counted in front of what does not begin with
one. -/
theorem Nameless.iterate_forAll_eq_iff {f g : Nameless} {m n : Nat}
    (hf : ∀ h, f ≠ .quantified .forAll h) (hg : ∀ h, g ≠ .quantified .forAll h) :
    (Nameless.quantified .forAll)^[m] f = (Nameless.quantified .forAll)^[n] g ↔
      m = n ∧ f = g := by
  induction m generalizing n with
  | zero =>
    cases n with
    | zero => simp
    | succ n => simpa [Function.iterate_succ_apply'] using hf _
  | succ m ih =>
    cases n with
    | zero => simpa [Function.iterate_succ_apply'] using (hg _).symm
    | succ n => simpa [Function.iterate_succ_apply'] using ih

/-- Two lists without repetitions, read side by side, are a renaming. -/
theorem exists_map_eq {vs ws : List Variable} (hvs : vs.Nodup) (hlen : vs.length = ws.length) :
    ∃ ρ : Variable → Variable, vs.map ρ = ws := by
  refine ⟨fun v => ws.getD (vs.idxOf v) v, List.ext_getElem (by simpa using hlen) ?_⟩
  intro k hk hk'
  simp [hvs.idxOf_getElem, hk']

namespace Formula

variable {f g : Formula}

/-- The closures are alike if a name stands on the one side where the same place
in the order stands on the other. -/
theorem closure_alphaEquivalent_iff :
    f.stripForAll.closure.AlphaEquivalent g.stripForAll.closure ↔
      f.stripForAll.freeVarsInOrder.length = g.stripForAll.freeVarsInOrder.length ∧
      f.stripForAll.namelessBelow f.stripForAll.freeVarsInOrder.reverse =
        g.stripForAll.namelessBelow g.stripForAll.freeVarsInOrder.reverse := by
  rw [AlphaEquivalent, nameless, nameless, closure, closure, namelessBelow_foldr_forAll,
    namelessBelow_foldr_forAll, List.append_nil, List.append_nil]
  exact Nameless.iterate_forAll_eq_iff (namelessBelow_stripForAll_ne f _)
    (namelessBelow_stripForAll_ne g _)

/-- A name and its place in the order say the same, as long as one renaming
takes names and order of the one formula to those of the other. -/
theorem namelessBelow_freeVarsInOrder_eq_iff {ρ : Variable → Variable}
    (hρ : Set.InjOn ρ {v | v ∈ f.freeVars})
    (horder : g.freeVarsInOrder = f.freeVarsInOrder.map ρ) :
    f.namelessBelow f.freeVarsInOrder.reverse = g.namelessBelow g.freeVarsInOrder.reverse ↔
      f.nameless.rename ρ = g.nameless := by
  apply namelessBelow_eq_iff
  intro v hv w _
  have hin : Set.InjOn ρ {u | u ∈ f.freeVarsInOrder.reverse} := by simpa using hρ
  rw [horder, ← List.map_reverse, ← Reference.resolve_map hin (by simpa using hv),
    (Reference.resolve_injective _).eq_iff]
  simp [Reference.rename]

/-- Formulas have the same key exactly if they are variants up to their
outermost universal quantifiers. -/
theorem key_eq_iff : f.key = g.key ↔ f.stripForAll.Variant g.stripForAll := by
  rw [key, key, austere_eq_iff, closure_alphaEquivalent_iff]
  constructor
  · rintro ⟨hlen, hbelow⟩
    obtain ⟨ρ, horder⟩ := exists_map_eq f.stripForAll.nodup_freeVarsInOrder hlen
    have hρ : Set.InjOn ρ {v | v ∈ f.stripForAll.freeVars} := by
      intro v hv w hw heq
      have hnodup : (f.stripForAll.freeVarsInOrder.map ρ).Nodup := by
        rw [horder]
        exact g.stripForAll.nodup_freeVarsInOrder
      exact List.inj_on_of_nodup_map hnodup (mem_freeVarsInOrder.mpr hv)
        (mem_freeVarsInOrder.mpr hw) heq
    exact ⟨ρ, hρ, (namelessBelow_freeVarsInOrder_eq_iff hρ horder.symm).mp hbelow⟩
  · rintro ⟨ρ, hρ, h⟩
    have horder := freeVarsInOrder_eq_map hρ h
    refine ⟨?_, (namelessBelow_freeVarsInOrder_eq_iff hρ horder).mpr h⟩
    rw [horder, List.length_map]

theorem stripForAll_foldr_forAll (vs : List Variable) (f : Formula) :
    (vs.foldr forAll f).stripForAll = f.stripForAll := by
  induction vs with
  | nil => rfl
  | cons v vs ih => exact ih

end Formula

def NamelessTerm.instantiate (σ : Variable → Term) : NamelessTerm → NamelessTerm
  | zero => zero
  | var (.free v) => (σ v).nameless []
  | var (.bound n) => var (.bound n)
  | succ t => succ (t.instantiate σ)
  | sum l r => sum (l.instantiate σ) (r.instantiate σ)
  | product l r => product (l.instantiate σ) (r.instantiate σ)

/-- A nameless formula with terms in place of its names. Nothing is captured:
the variables of the terms stay names below every quantifier. -/
def Nameless.instantiate (σ : Variable → Term) : Nameless → Nameless
  | equality l r => equality (l.instantiate σ) (r.instantiate σ)
  | neg f => neg (f.instantiate σ)
  | binary op l r => binary op (l.instantiate σ) (r.instantiate σ)
  | quantified q f => quantified q (f.instantiate σ)

/-- Putting terms in place of names can be undone by a renaming only where the
terms are variables. -/
theorem NamelessTerm.exists_var_of_rename_instantiate {σ : Variable → Term}
    {ρ : Variable → Variable} {t : NamelessTerm} (h : (t.instantiate σ).rename ρ = t)
    {v : Variable} (hv : v ∈ t.names) : ∃ w, σ v = .var w ∧ ρ w = v := by
  induction t with
  | zero => cases hv
  | var r =>
    cases r with
    | bound n => cases hv
    | free u =>
      obtain rfl : v = u := by simpa [names] using hv
      rw [instantiate] at h
      cases ht : σ v with
      | var w =>
        rw [ht] at h
        exact ⟨w, rfl, by simpa [Term.nameless, rename, Reference.rename] using h⟩
      | _ => simp [ht, Term.nameless, rename] at h
  | succ t ih => exact ih (by simpa [instantiate, rename] using h) hv
  | sum l r ihl ihr =>
    simp only [instantiate, rename, sum.injEq] at h
    exact (List.mem_append.mp hv).elim (ihl h.1) (ihr h.2)
  | product l r ihl ihr =>
    simp only [instantiate, rename, product.injEq] at h
    exact (List.mem_append.mp hv).elim (ihl h.1) (ihr h.2)

theorem Nameless.exists_var_of_rename_instantiate {σ : Variable → Term}
    {ρ : Variable → Variable} {f : Nameless} (h : (f.instantiate σ).rename ρ = f)
    {v : Variable} (hv : v ∈ f.names) : ∃ w, σ v = .var w ∧ ρ w = v := by
  induction f with
  | equality l r =>
    simp only [instantiate, rename, equality.injEq] at h
    exact (List.mem_append.mp hv).elim (NamelessTerm.exists_var_of_rename_instantiate h.1)
      (NamelessTerm.exists_var_of_rename_instantiate h.2)
  | neg f ih => exact ih (by simpa [instantiate, rename] using h) hv
  | binary op l r ihl ihr =>
    simp only [instantiate, rename, binary.injEq] at h
    exact (List.mem_append.mp hv).elim (ihl h.2.1) (ihr h.2.2)
  | quantified q f ih => exact ih (by simpa [instantiate, rename] using h) hv

namespace Formula

variable {f g : Formula}

/-- An instance that is a variant puts different variables in place of different
variables, since the renaming takes back what the instance did. -/
theorem Variant.exists_renaming_of_instance {σ : Variable → Term} (h : f.Variant g)
    (hσ : f.nameless = g.nameless.instantiate σ) :
    ∃ τ : Variable → Variable, Set.InjOn τ {v | v ∈ g.freeVars} ∧
      ∀ v ∈ g.freeVars, σ v = .var (τ v) := by
  obtain ⟨ρ, -, hρ⟩ := h
  rw [hσ] at hρ
  have hvar : ∀ v, v ∈ g.freeVars → ∃ w, σ v = .var w ∧ ρ w = v :=
    fun v hv => Nameless.exists_var_of_rename_instantiate hρ (mem_names_nameless.mpr hv)
  choose! τ hτ hback using hvar
  exact ⟨τ, Set.LeftInvOn.injOn hback, hτ⟩

end Formula

namespace Axioms

variable {axioms : List Formula} {f : Formula}

theorem find?_eq_some_iff {n : Nat} :
    find? axioms f = some n ↔
      (∃ x, axioms[n]? = some x ∧ f.stripForAll.Variant x.stripForAll) ∧
        ∀ m < n, ∀ x, axioms[m]? = some x → ¬ f.stripForAll.Variant x.stripForAll := by
  simp only [find?, List.findIdx?_eq_some_iff_getElem, decide_eq_true_eq, Formula.key_eq_iff]
  constructor
  · rintro ⟨hn, hfound, hbefore⟩
    refine ⟨⟨_, List.getElem?_eq_getElem hn, hfound⟩, ?_⟩
    intro m hm x hx
    obtain ⟨_, rfl⟩ := List.getElem?_eq_some_iff.mp hx
    exact hbefore m hm
  · rintro ⟨⟨x, hx, hfound⟩, hbefore⟩
    obtain ⟨hn, rfl⟩ := List.getElem?_eq_some_iff.mp hx
    exact ⟨hn, hfound, fun m hm => hbefore m hm _ (List.getElem?_eq_getElem _)⟩

theorem exists_find?_eq_some_iff :
    (∃ n, find? axioms f = some n) ↔ ∃ x ∈ axioms, f.stripForAll.Variant x.stripForAll := by
  rw [← Option.isSome_iff_exists, find?, List.findIdx?_isSome, List.any_eq_true]
  simp only [decide_eq_true_eq, Formula.key_eq_iff]

end Axioms

namespace Deduction

theorem axioms_run (title : String) (axioms : List Formula) (moves : List Move) :
    ((start title axioms).run moves).Coherent ∧
      ((start title axioms).run moves).axioms = axioms := by
  refine run_induction (P := fun d => d.axioms = axioms) rfl ?_ moves
  intro d m f d' _ hd hm
  obtain ⟨scopes, j, rfl⟩ := hm.exists_extended
  exact hd

theorem apply_postulate_eq_ok_iff {d d' : Deduction} {f g : Formula} (h : d.Coherent) :
    d.apply (.postulate f) = .ok (g, d') ↔ f.checkWellFormed = .ok () ∧ g = f ∧
      ∃ n, Axioms.find? d.axioms f = some n ∧ d' = d.extended d.scopes f (.postulated n) := by
  rw [apply_eq_ok_iff h]
  constructor
  · intro hm
    cases hm with
    | postulated found wellFormed => exact ⟨wellFormed, rfl, _, found, rfl⟩
  · rintro ⟨hwf, rfl, n, hfound, rfl⟩
    exact .postulated hfound hwf

/-- A formula may be stated as an axiom exactly if it is well quantified and,
without outermost universal quantifiers, a variant of an axiom; the first such
axiom is noted. Which outermost universal quantifiers there are does not matter,
nor do the names of variables. An instance of an axiom counts as that axiom only
if it puts different variables in place of different variables. -/
theorem postulate_variants (title : String) (axioms : List Formula) (moves : List Move)
    (f : Formula) :
    let d := (start title axioms).run moves
    ((∃ g d', d.apply (.postulate f) = .ok (g, d')) ↔
      f.checkWellFormed = .ok () ∧ ∃ x ∈ axioms, f.stripForAll.Variant x.stripForAll) ∧
    (∀ g d', d.apply (.postulate f) = .ok (g, d') → g = f ∧ ∃ n x s,
      axioms[n]? = some x ∧ f.stripForAll.Variant x.stripForAll ∧
      (∀ m < n, ∀ y, axioms[m]? = some y → ¬ f.stripForAll.Variant y.stripForAll) ∧
      d'.steps = d.steps ++ [s] ∧ s.formula = f ∧
      s.justification.annotation = s!"axiom {n + 1}") ∧
    (∀ vs : List Variable, Axioms.find? axioms (vs.foldr .forAll f) = Axioms.find? axioms f) ∧
    (∀ g, f.stripForAll.Variant g.stripForAll → Axioms.find? axioms g = Axioms.find? axioms f) ∧
    (∀ (x : Formula) (σ : Variable → Term),
      f.stripForAll.nameless = x.stripForAll.nameless.instantiate σ →
      f.stripForAll.Variant x.stripForAll →
      ∃ τ : Variable → Variable, Set.InjOn τ {v | v ∈ x.stripForAll.freeVars} ∧
        ∀ v ∈ x.stripForAll.freeVars, σ v = .var (τ v)) := by
  intro d
  obtain ⟨hc, haxioms⟩ : d.Coherent ∧ d.axioms = axioms := axioms_run title axioms moves
  simp only [apply_postulate_eq_ok_iff hc, haxioms]
  refine ⟨?_, ?_, ?_, ?_, fun x σ hσ h => h.exists_renaming_of_instance hσ⟩
  · rw [← Axioms.exists_find?_eq_some_iff]
    constructor
    · rintro ⟨g, d', hwf, -, n, hn, -⟩
      exact ⟨hwf, n, hn⟩
    · rintro ⟨hwf, n, hn⟩
      exact ⟨f, _, hwf, rfl, n, hn, rfl⟩
  · rintro g d' ⟨-, hg, n, hn, rfl⟩
    obtain ⟨⟨x, hx, hvariant⟩, hfirst⟩ := Axioms.find?_eq_some_iff.mp hn
    exact ⟨hg, n, x, _, hx, hvariant, hfirst, rfl, rfl, rfl⟩
  · intro vs
    rw [Axioms.find?, Axioms.find?, Formula.key, Formula.key, Formula.stripForAll_foldr_forAll]
  · intro g h
    rw [Axioms.find?, Axioms.find?, Formula.key_eq_iff.mpr h]

/-- The second axiom with another name for its variable, below a quantifier of
a variable that does not occur. -/
theorem postulate_variants_second :
    let c : Variable := ⟨'c', 0, rfl⟩
    let x := Formula.equality (.sum Axioms.first .zero) Axioms.first
    let f := Formula.forAll (.austere 1)
      (.forAll c (.equality (.sum (.var c) .zero) (.var c)))
    let d := (start "" Axioms.peano).run []
    (∃ n y s d', d.apply (.postulate f) = .ok (f, d') ∧ Axioms.peano[n]? = some y ∧
      f.stripForAll.Variant y.stripForAll ∧ d'.steps = d.steps ++ [s] ∧
      s.justification.annotation = s!"axiom {n + 1}") ∧
    Axioms.find? Axioms.peano x = Axioms.find? Axioms.peano f ∧
    ∃ τ : Variable → Variable, Set.InjOn τ {v | v ∈ x.freeVars} ∧
      ∀ v ∈ x.freeVars, Term.var c = .var (τ v) := by
  intro c x f d
  have hvariant : f.stripForAll.Variant x.stripForAll := by
    refine ⟨fun _ => .austere 0, ?_, by decide⟩
    have hfree : ∀ v ∈ f.stripForAll.freeVars, v = c := by decide
    intro v hv w hw _
    rw [hfree v hv, hfree w hw]
  obtain ⟨haccepted, hnoted, -, hnames, hinstance⟩ := postulate_variants "" Axioms.peano [] f
  obtain ⟨g, d', happly⟩ := haccepted.mpr ⟨by decide, x, by decide, hvariant⟩
  obtain ⟨rfl, n, y, s, hy, hvy, -, hsteps, -, hs⟩ := hnoted g d' happly
  exact ⟨⟨n, y, s, d', happly, hy, hvy, hsteps, hs⟩, hnames x hvariant,
    hinstance x (fun _ => .var c) (by decide) hvariant⟩

example :
    Axioms.find? Axioms.peano (.equality (.sum (.succ .zero) .zero) (.succ .zero)) = none := by
  decide

end Deduction

end Typographical
