import Typographical.Proofs.Formation

/-!
# Derived rules

To show that something can be proved one has to write down moves, and moves name
theorems by their numbers. Here this is done once for each rule: from formulas
that can be used, another one can be derived by moves that all succeed, wherever
in the log these formulas stand and whatever else there is. From then on it does
not matter what number a theorem has.

Theorems are numbered with 64 bits, and a theorem without a number cannot be used.
So it has to be kept in mind how many theorems a derivation adds.
-/

namespace Typographical

namespace Deduction

/-- The deduction after moves that all succeed, or the first failure. -/
def perform (d : Deduction) : List Move → Except Failure Deduction
  | [] => .ok d
  | m :: moves => do
    let (_, d') ← d.apply m
    d'.perform moves

/-- A deduction over the axioms of arithmetic as it results from moves. -/
structure Arithmetical (d : Deduction) : Prop where
  coherent : d.Coherent
  formed : ∀ s ∈ d.steps, s.formula.WellQuantified
  axioms : d.axioms = Axioms.peano

def Usable (d : Deduction) (f : Formula) : Prop := ∃ n, d.use n = .ok f

/-- No supposition is open, or one with the given premise. -/
def Presumes (d : Deduction) : Option Formula → Prop
  | none => d.Closed
  | some p => ∃ origin s, d.OpenAt origin ∧ d.steps[origin]? = some s ∧ s.formula = p

/-- Moves lead to a deduction with at most `cost` more theorems, under the same
suppositions. -/
structure Leads (d : Deduction) (moves : List Move) (cost : Nat) (d' : Deduction) : Prop where
  performed : d.perform moves = .ok d'
  arithmetical : d'.Arithmetical
  scopes : d'.scopes = d.scopes
  earlier : d.steps <+: d'.steps
  size : d'.size ≤ d.size + cost

/-- Under a premise, a formula can be derived from others with at most `cost` new
theorems, as long as these can be numbered. -/
def Derives (p : Option Formula) (given : List Formula) (cost : Nat) (f : Formula) : Prop :=
  ∀ d : Deduction, d.Arithmetical → d.Presumes p → (∀ g ∈ given, d.Usable g) →
    d.size + cost ≤ UInt64.size → ∃ moves d', d.Leads moves cost d' ∧ d'.Usable f

variable {d d₁ d' : Deduction} {f g h : Formula} {p : Option Formula} {given : List Formula}
  {moves moves' : List Move} {c k : Nat}

theorem perform_append (moves moves' : List Move) (d : Deduction) :
    d.perform (moves ++ moves') = d.perform moves >>= fun d' => d'.perform moves' := by
  induction moves generalizing d with
  | nil => rfl
  | cons m moves ih =>
    rw [List.cons_append, perform, perform]
    cases d.apply m with
    | error e => rfl
    | ok r => exact ih r.2

theorem arithmetical_start (title : String) : (start title Axioms.peano).Arithmetical :=
  ⟨coherent_start title _, fun _ hs => absurd hs List.not_mem_nil, rfl⟩

theorem Granted.arithmetical {m : Move} (hd : d.Arithmetical) (hm : d.Granted m f d') :
    d'.Arithmetical := by
  have hcoherent := hm.coherent hd.coherent
  have hf := Formula.checkWellFormed_iff.mp hm.wellFormed
  obtain ⟨scopes, j, rfl⟩ := hm.exists_extended
  refine ⟨hcoherent, fun s hs => ?_, hd.axioms⟩
  rcases mem_steps_extended.mp hs with hs | rfl
  · exact hd.formed s hs
  · exact hf

theorem perform_singleton {m : Move} (hd : d.Arithmetical) (hm : d.Granted m f d') :
    d.perform [m] = .ok d' := by
  rw [perform, (apply_eq_ok_iff hd.coherent).mpr hm]
  rfl

theorem Leads.refl (hd : d.Arithmetical) : d.Leads [] 0 d :=
  ⟨rfl, hd, rfl, List.prefix_refl _, Nat.le_refl _⟩

theorem Leads.trans (h : d.Leads moves c d₁) (h' : d₁.Leads moves' k d') :
    d.Leads (moves ++ moves') (c + k) d' := by
  have hsize := h.size
  have hsize' := h'.size
  refine ⟨?_, h'.arithmetical, h'.scopes.trans h.scopes, h.earlier.trans h'.earlier, by omega⟩
  rw [perform_append, h.performed]
  exact h'.performed

theorem Leads.mono (h : d.Leads moves c d') (hck : c ≤ k) : d.Leads moves k d' :=
  ⟨h.performed, h.arithmetical, h.scopes, h.earlier, by have := h.size; omega⟩

theorem Leads.getElem?_steps (h : d.Leads moves c d') {s : Step} (hs : d.steps[k]? = some s) :
    d'.steps[k]? = some s := by
  obtain ⟨hk, rfl⟩ := List.getElem?_eq_some_iff.mp hs
  exact List.prefix_iff_getElem?.mp h.earlier k hk

/-- What could be used can still be used. -/
theorem Leads.usable (h : d.Leads moves c d') (hd : d.Arithmetical) (hf : d.Usable f) :
    d'.Usable f := by
  obtain ⟨n, hn⟩ := hf
  obtain ⟨s, hs, hformula, hscope⟩ := (use_eq_ok_iff hd.coherent).mp hn
  refine ⟨n, (use_eq_ok_iff h.arithmetical.coherent).mpr ⟨s, ?_, hformula, ?_⟩⟩
  · exact h.getElem?_steps hs
  · rwa [h.scopes]

theorem Leads.presumes (h : d.Leads moves c d') (hp : d.Presumes p) : d'.Presumes p := by
  cases p with
  | none => exact h.scopes.trans hp
  | some p =>
    obtain ⟨origin, s, ho, hs, hformula⟩ := hp
    rcases h.arithmetical.coherent with hclosed | ⟨origin', ho'⟩
    · have hscopes := h.scopes.symm.trans hclosed
      rw [ho.scopes] at hscopes
      cases hscopes
    · have hscopes := ho'.scopes.symm.trans h.scopes
      rw [ho.scopes] at hscopes
      cases hscopes
      exact ⟨origin, s, ho', h.getElem?_steps hs, hformula⟩

/-- The theorem added last can be used if it can be numbered. -/
theorem usable_extended {scopes : Stack Nat} {j : Justification}
    (hd : (d.extended scopes f j).Arithmetical) (hroom : d.size < UInt64.size) :
    (d.extended scopes f j).Usable f := by
  have hnumber : (UInt64.ofNat d.size).toNat = d.size := UInt64.toNat_ofNat_of_lt hroom
  exact ⟨UInt64.ofNat d.size, use_extended hd.coherent hnumber⟩

theorem leads_extended {m : Move} {j : Justification} (hd : d.Arithmetical)
    (hm : d.Granted m f (d.extended d.scopes f j)) :
    d.Leads [m] 1 (d.extended d.scopes f j) :=
  ⟨perform_singleton hd hm, hm.arithmetical hd, rfl, List.prefix_append _ _,
    Nat.le_of_eq size_extended⟩

theorem leads_infer {i : Inference} (hd : d.Arithmetical) (hi : i.rule ≠ .joining)
    (hconclude : i.conclude d.use d.openPremise = .ok f) :
    d.Leads [.infer i] 1 (d.extended d.scopes f (.inferred i)) := by
  obtain ⟨hf, -⟩ := apply_infer_eq_ok hd.coherent hd.formed hi hconclude
  exact leads_extended hd (.inferred hconclude hf)

theorem Derives.of_mem (hf : f ∈ given) : Derives p given 0 f :=
  fun _ hd _ husable _ => ⟨[], _, .refl hd, husable f hf⟩

theorem Derives.mono (h : Derives p given c f) (hck : c ≤ k) : Derives p given k f := by
  intro d hd hp husable hroom
  obtain ⟨moves, d', hleads, hf⟩ := h d hd hp husable (by omega)
  exact ⟨moves, d', hleads.mono hck, hf⟩

/-- What has been derived may be used. -/
theorem Derives.cut (hf : Derives p given c f) (hg : Derives p (f :: given) k g) :
    Derives p given (c + k) g := by
  intro d hd hp husable hroom
  obtain ⟨moves, d₁, hleads, hf⟩ := hf d hd hp husable (by omega)
  have husable₁ : ∀ g ∈ f :: given, d₁.Usable g :=
    List.forall_mem_cons.mpr ⟨hf, fun g hg => hleads.usable hd (husable g hg)⟩
  have hroom₁ : d₁.size + k ≤ UInt64.size := by
    have := hleads.size
    omega
  obtain ⟨moves', d', hleads', hg⟩ := hg d₁ hleads.arithmetical (hleads.presumes hp) husable₁ hroom₁
  exact ⟨moves ++ moves', d', hleads.trans hleads', hg⟩

/-- A rule for one theorem. -/
theorem Derives.infer (hf : Derives p given c f)
    (rule : ∀ (d : Deduction) n, d.Presumes p → d.use n = .ok f →
      ∃ i : Inference, i.rule ≠ .joining ∧ i.conclude d.use d.openPremise = .ok g) :
    Derives p given (c + 1) g := by
  intro d hd hp husable hroom
  obtain ⟨moves, d', hleads, n, hn⟩ := hf d hd hp husable (by omega)
  obtain ⟨i, hi, hconclude⟩ := rule d' n (hleads.presumes hp) hn
  have hlast := leads_infer hleads.arithmetical hi hconclude
  have hroom' : d'.size < UInt64.size := by
    have := hleads.size
    omega
  exact ⟨_, _, hleads.trans hlast, usable_extended hlast.arithmetical hroom'⟩

/-- A rule for two theorems. -/
theorem Derives.infer₂ (hf : Derives p given c f) (hg : Derives p given k g)
    (rule : ∀ (d : Deduction) n m, d.use n = .ok f → d.use m = .ok g →
      ∃ i : Inference, i.rule ≠ .joining ∧ i.conclude d.use d.openPremise = .ok h) :
    Derives p given (c + k + 1) h := by
  intro d hd hp husable hroom
  obtain ⟨moves, d₁, hleads, hf⟩ := hf d hd hp husable (by omega)
  have hroom₁ : d₁.size + k ≤ UInt64.size := by
    have := hleads.size
    omega
  obtain ⟨moves', d', hleads', m, hm⟩ := hg d₁ hleads.arithmetical (hleads.presumes hp)
    (fun g hg => hleads.usable hd (husable g hg)) hroom₁
  obtain ⟨n, hn⟩ := hleads'.usable hleads.arithmetical hf
  have hboth := hleads.trans hleads'
  obtain ⟨i, hi, hconclude⟩ := rule d' n m hn hm
  have hlast := leads_infer hboth.arithmetical hi hconclude
  have hroom' : d'.size < UInt64.size := by
    have := hboth.size
    omega
  exact ⟨_, _, hboth.trans hlast, usable_extended hlast.arithmetical hroom'⟩

section Rules

variable {l r t u : Term} {v w : Variable}

/-- An axiom of arithmetic, under any name of its variables. -/
theorem Derives.postulate (number : Nat) (hfound : Axioms.find? Axioms.peano f = some number)
    (hf : f.checkWellFormed = .ok ()) : Derives p given 1 f := by
  intro d hd hp husable hroom
  rw [← hd.axioms] at hfound
  have hlast := leads_extended hd (.postulated hfound hf)
  exact ⟨_, _, hlast, usable_extended hlast.arithmetical (by omega)⟩

theorem Derives.specify (hf : Derives p given c (.forAll v f)) (t : Term)
    (fits : ∀ u ∈ t.occurrences, u ∉ f.quantifiedVars) :
    Derives p given (c + 1) (f.substitute v t) := by
  refine hf.infer fun d n _ hn => ⟨.specification n v t, by simp [Inference.rule], ?_⟩
  have hnone : t.vars.toList.find? (fun u => u ≠ v && f.boundVars.contains u) = none := by
    rw [List.find?_eq_none]
    intro u hu
    have hfits := fits u (Term.mem_vars.mp (SortedSet.mem_def.mpr hu))
    simp [hfits]
  simp only [Inference.conclude, hn, bind, Except.bind, Inference.specify, if_true, hnone]

theorem Derives.generalize (hf : Derives none given c f) (v : Variable)
    (hv : v ∉ f.quantifiedVars) : Derives none given (c + 1) (.forAll v f) := by
  refine hf.infer fun d n hclosed hn => ⟨.generalization n v, by simp [Inference.rule], ?_⟩
  have hbound : ¬ f.boundVars.contains v = true := by simpa using hv
  simp only [Inference.conclude, hn, Closed.openPremise hclosed, bind, Except.bind,
    Inference.generalize, if_neg hbound]

theorem Derives.successor (h : Derives p given c (.equality l r)) :
    Derives p given (c + 1) (.equality (.succ l) (.succ r)) := by
  refine h.infer fun d n _ hn => ⟨.successor n, by simp [Inference.rule], ?_⟩
  simp only [Inference.conclude, hn]
  rfl

theorem Derives.symmetry (h : Derives p given c (.equality l r)) :
    Derives p given (c + 1) (.equality r l) := by
  refine h.infer fun d n _ hn => ⟨.symmetry n, by simp [Inference.rule], ?_⟩
  simp only [Inference.conclude, hn]
  rfl

theorem Derives.transitivity (h : Derives p given c (.equality l t))
    (h' : Derives p given k (.equality t r)) : Derives p given (c + k + 1) (.equality l r) := by
  refine h.infer₂ h' fun d n m hn hm => ⟨.transitivity n m, by simp [Inference.rule], ?_⟩
  simp only [Inference.conclude, hn, hm, bind, Except.bind, Inference.chain, if_true]

/-- An equality that has been derived can be made the last theorem: turned around twice it is
stated again. -/
theorem Derives.last (h : Derives p given c (.equality l r)) (hd : d.Arithmetical)
    (hp : d.Presumes p) (husable : ∀ g ∈ given, d.Usable g)
    (hroom : d.size + c + 2 ≤ UInt64.size) :
    ∃ moves d' s, d.Leads moves (c + 2) d' ∧ d'.steps[d'.size - 1]? = some s ∧
      s.formula = .equality l r ∧ s.depth = d'.scopes.size := by
  obtain ⟨moves, d₁, hleads, n, hn⟩ := h.symmetry d hd hp husable (by omega)
  have hconclude : (Inference.symmetry n).conclude d₁.use d₁.openPremise =
      .ok (.equality l r) := by
    simp only [Inference.conclude, hn]
    rfl
  have hlast := leads_infer hleads.arithmetical (by simp [Inference.rule]) hconclude
  refine ⟨_, _, ⟨.equality l r, .inferred (.symmetry n), d₁.scopes.size, d₁.scopes.items.headD 0⟩,
    hleads.trans hlast, ?_, rfl, rfl⟩
  rw [size_extended, Nat.add_sub_cancel]
  exact getElem?_steps_extended.mpr (Or.inr ⟨rfl, rfl⟩)

theorem wellFormed_implies (l r t u : Term) :
    (Formula.implies (.equality l r) (.equality t u)).checkWellFormed = .ok () :=
  Formula.checkWellFormed_iff.mpr ⟨trivial, trivial, fun _ _ => List.not_mem_nil,
    fun _ _ => List.not_mem_nil⟩

/-- Without an open supposition, what can be used can also be used under one. -/
theorem Usable.suppose {premise : Formula} (hf : d.Usable f) (hd : d.Arithmetical)
    (hclosed : d.Closed)
    (hd₁ : (d.extended ⟨[d.size], maxDepth⟩ premise .supposed).Arithmetical) :
    (d.extended ⟨[d.size], maxDepth⟩ premise .supposed).Usable f := by
  obtain ⟨n, hn⟩ := hf
  obtain ⟨s, hs, hformula, hscope⟩ := (use_eq_ok_iff hd.coherent).mp hn
  have hdepth : s.depth = 0 := by
    rcases hscope with hdepth | hscope
    · exact hdepth
    · have hscopes : d.scopes = .bounded maxDepth := hclosed
      rw [hscopes] at hscope
      cases hscope
  exact ⟨n, (use_eq_ok_iff hd₁.coherent).mpr
    ⟨s, getElem?_steps_extended.mpr (Or.inl hs), hformula, Or.inl hdepth⟩⟩

/-- What follows from a premise makes an implication, once it is the last theorem. -/
theorem Derives.discharge
    (h : Derives (some (.equality l r)) (.equality l r :: given) c (.equality t u)) :
    Derives none given (c + 4) (.implies (.equality l r) (.equality t u)) := by
  intro d hd hclosed husable hroom
  have hsupposed : d.Granted (.suppose (.equality l r)) (.equality l r)
      (d.extended ⟨[d.size], maxDepth⟩ (.equality l r) .supposed) := .supposed hclosed rfl
  have hd₁ := hsupposed.arithmetical hd
  have hpresumes : (d.extended ⟨[d.size], maxDepth⟩ (.equality l r) .supposed).Presumes
      (some (.equality l r)) :=
    ⟨d.size, _, d.openAt_supposed _, getElem?_steps_extended.mpr (Or.inr ⟨rfl, rfl⟩), rfl⟩
  have husable₁ : ∀ g ∈ .equality l r :: given,
      (d.extended ⟨[d.size], maxDepth⟩ (.equality l r) .supposed).Usable g :=
    List.forall_mem_cons.mpr ⟨usable_extended hd₁ (by omega),
      fun g hg => (husable g hg).suppose hd hclosed hd₁⟩
  obtain ⟨moves, d₂, s, hleads, hlast, hformula, -⟩ :=
    h.last hd₁ hpresumes husable₁ (by rw [size_extended]; omega)
  obtain ⟨origin, premise, ho, hpremise, heq⟩ := hleads.presumes hpresumes
  have hdischarged : d₂.Granted .discharge _ _ :=
    .discharged ho hpremise hlast (by rw [heq, hformula]; exact wellFormed_implies l r t u)
  rw [heq, hformula] at hdischarged
  have hd₃ := hdischarged.arithmetical hleads.arithmetical
  have hsize := hleads.size
  rw [size_extended] at hsize
  refine ⟨[.suppose (.equality l r)] ++ moves ++ [.discharge], _,
    ⟨?_, hd₃, hclosed.symm, ?_, ?_⟩, usable_extended hd₃ (by omega)⟩
  · rw [perform_append, perform_append, perform_singleton hd hsupposed]
    change (Deduction.perform _ moves >>= fun d' => d'.perform [.discharge]) = _
    rw [hleads.performed]
    exact perform_singleton hleads.arithmetical hdischarged
  · exact (List.prefix_append _ _).trans (hleads.earlier.trans (List.prefix_append _ _))
  · rw [size_extended]
    omega

theorem containsVar_replace_zero (t : Term) (v : Variable) :
    (t.replace v .zero).containsVar v = false := by
  induction t with
  | zero => rfl
  | var w =>
    by_cases hw : w = v
    · simp [Term.replace, Term.bind, hw, Term.containsVar]
    · simp [Term.replace, Term.bind, hw, Term.containsVar]
  | succ t ih => exact ih
  | sum l r ihl ihr => exact Bool.or_eq_false_iff.mpr ⟨ihl, ihr⟩
  | product l r ihl ihr => exact Bool.or_eq_false_iff.mpr ⟨ihl, ihr⟩

theorem induct_equality (l r : Term) (v : Variable) (m : UInt64) :
    Inference.induct v m (.equality (l.replace v .zero) (r.replace v .zero))
      (.forAll v (.implies (.equality l r)
        (.equality (l.replace v (.succ (.var v))) (r.replace v (.succ (.var v)))))) =
      .ok (.forAll v (.equality l r)) := by
  have hbound : ¬ (Formula.equality l r).boundVars.contains v = true := by
    simp [Formula.quantifiedVars]
  have hbase : ¬ (Formula.equality (l.replace v .zero) (r.replace v .zero)).containsVar v =
      true := by
    simp [Formula.containsVar, containsVar_replace_zero]
  rw [Inference.induct, if_pos rfl]
  simp only [Formula.substitute, if_neg hbound, if_neg hbase, ne_eq, not_true_eq_false, if_false]

/-- An equality that holds at zero, and at each successor if it holds before, holds
always. -/
theorem Derives.induction (v : Variable)
    (base : Derives none given c (.equality (l.replace v .zero) (r.replace v .zero)))
    (step : Derives (some (.equality l r)) (.equality l r :: given) k
      (.equality (l.replace v (.succ (.var v))) (r.replace v (.succ (.var v))))) :
    Derives none given (c + k + 6) (.forAll v (.equality l r)) := by
  have hgeneral := step.discharge.generalize v List.not_mem_nil
  refine (base.infer₂ hgeneral fun d n m hn hm => ?_).mono (by omega)
  refine ⟨.induction v n m, by simp [Inference.rule], ?_⟩
  simp only [Inference.conclude, hn, hm, bind, Except.bind]
  exact induct_equality l r v m

end Rules

end Deduction

end Typographical
