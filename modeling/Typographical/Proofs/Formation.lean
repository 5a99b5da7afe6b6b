import Typographical.Proofs.Soundness

/-!
# Well-quantified conclusions

A theorem has to be well quantified, and every move checks that. For most rules
the check is idle: what they conclude from well-quantified theorems is well
quantified anyhow. Substitution brings in variables that no quantifier binds, a
change within a formula keeps its free and its bound variables, and the other
rules take formulas apart or put the same parts together in another way.

Four rules remain. A formula that is stated or supposed comes from outside, and
two formulas that are joined, be it by "and" or by "implies", may use a variable
in different ways. Each of the four does fail for that reason.
-/

namespace Typographical

namespace Term

theorem mem_of_mem_replace {t new : Term} {u v : Variable}
    (h : u ∈ (t.replace v new).occurrences) : u ∈ t.occurrences ∨ u ∈ new.occurrences := by
  rcases mem_occurrences_replace.mp h with ⟨-, hu⟩ | ⟨-, hu⟩
  · exact Or.inl hu
  · exact Or.inr hu

theorem mem_of_mem_replaceSubterm {t old new : Term} {u : Variable}
    (h : u ∈ (t.replaceSubterm old new).occurrences) :
    u ∈ t.occurrences ∨ u ∈ new.occurrences := by
  induction t with
  | zero =>
    rw [replaceSubterm] at h
    split at h
    · exact Or.inr h
    · exact Or.inl h
  | var v =>
    rw [replaceSubterm] at h
    split at h
    · exact Or.inr h
    · exact Or.inl h
  | succ t ih =>
    rw [replaceSubterm] at h
    split at h
    · exact Or.inr h
    · exact ih h
  | sum l r ihl ihr =>
    rw [replaceSubterm] at h
    split at h
    · exact Or.inr h
    · simp only [occurrences, List.mem_append] at h ⊢
      tauto
  | product l r ihl ihr =>
    rw [replaceSubterm] at h
    split at h
    · exact Or.inr h
    · simp only [occurrences, List.mem_append] at h ⊢
      tauto

end Term

namespace Formula

/-- The same connectives and quantifiers, around equalities whose variables were
there before or come from `added`. -/
inductive Framed (added : List Variable) : Formula → Formula → Prop
  | equality {l r l' r' : Term}
      (left : ∀ u ∈ l'.occurrences, u ∈ l.occurrences ∨ u ∈ added)
      (right : ∀ u ∈ r'.occurrences, u ∈ r.occurrences ∨ u ∈ added) :
      Framed added (.equality l r) (.equality l' r')
  | neg {f g : Formula} (h : Framed added f g) : Framed added (.neg f) (.neg g)
  | binary {op : Connective} {l r l' r' : Formula} (left : Framed added l l')
      (right : Framed added r r') : Framed added (.binary op l r) (.binary op l' r')
  | quantified {q : Quantifier} {v : Variable} {f g : Formula} (h : Framed added f g) :
      Framed added (.quantified q v f) (.quantified q v g)

variable {added : List Variable} {f g : Formula}

theorem Framed.refl (added : List Variable) (f : Formula) : Framed added f f := by
  induction f with
  | equality l r => exact .equality (fun _ => Or.inl) (fun _ => Or.inl)
  | neg f ih => exact .neg ih
  | binary op l r ihl ihr => exact .binary ihl ihr
  | quantified q v f ih => exact .quantified ih

theorem framed_substitute (v : Variable) (t : Term) (f : Formula) :
    Framed t.occurrences f (f.substitute v t) := by
  induction f with
  | equality l r =>
    exact .equality (fun _ => Term.mem_of_mem_replace) (fun _ => Term.mem_of_mem_replace)
  | neg f ih => exact .neg ih
  | binary op l r ihl ihr => exact .binary ihl ihr
  | quantified q w f ih =>
    refine .quantified ?_
    split
    · exact .refl _ f
    · exact ih

theorem framed_replaceTerm (old new : Term) (f : Formula) :
    Framed new.occurrences f (f.replaceTerm old new) := by
  induction f with
  | equality l r =>
    exact .equality (fun _ => Term.mem_of_mem_replaceSubterm)
      (fun _ => Term.mem_of_mem_replaceSubterm)
  | neg f ih => exact .neg ih
  | binary op l r ihl ihr => exact .binary ihl ihr
  | quantified q w f ih =>
    refine .quantified ?_
    split
    · exact .refl _ f
    · exact ih

theorem Framed.quantifiedVars_eq (h : Framed added f g) : g.quantifiedVars = f.quantifiedVars := by
  induction h with
  | equality left right => rfl
  | neg _ ih => exact ih
  | binary _ _ ihl ihr => exact congrArg₂ (· ++ ·) ihl ihr
  | quantified _ ih => exact congrArg (List.cons _) ih

theorem Framed.mem_freeVars (h : Framed added f g) {u : Variable} (hu : u ∈ g.freeVars) :
    u ∈ f.freeVars ∨ u ∈ added := by
  induction h with
  | equality left right =>
    simp only [mem_freeVars_equality] at hu ⊢
    rcases hu with hu | hu
    · exact (left u hu).imp_left Or.inl
    · exact (right u hu).imp_left Or.inr
  | neg _ ih =>
    simp only [mem_freeVars_neg] at hu ⊢
    exact ih hu
  | binary _ _ ihl ihr =>
    simp only [mem_freeVars_binary] at hu ⊢
    rcases hu with hu | hu
    · exact (ihl hu).imp_left Or.inl
    · exact (ihr hu).imp_left Or.inr
  | quantified _ ih =>
    simp only [mem_freeVars_quantified] at hu ⊢
    exact (ih hu.2).imp_left (And.intro hu.1)

/-- Variables that are quantified nowhere may be added anywhere. -/
theorem Framed.wellQuantified (h : Framed added f g) (hf : f.WellQuantified)
    (safe : ∀ u ∈ added, u ∉ f.quantifiedVars) : g.WellQuantified := by
  induction h with
  | equality left right => trivial
  | neg _ ih => exact ih hf safe
  | binary hleft hright ihl ihr =>
    obtain ⟨hl, hr, hlr, hrl⟩ := hf
    simp only [quantifiedVars, List.mem_append, not_or] at safe
    refine ⟨ihl hl (fun u hu => (safe u hu).1), ihr hr (fun u hu => (safe u hu).2), ?_, ?_⟩
    · intro u hu
      rw [hright.quantifiedVars_eq]
      rcases hleft.mem_freeVars hu with hu | hu
      · exact hlr u hu
      · exact (safe u hu).2
    · intro u hu
      rw [hleft.quantifiedVars_eq]
      rcases hright.mem_freeVars hu with hu | hu
      · exact hrl u hu
      · exact (safe u hu).1
  | quantified h ih =>
    simp only [quantifiedVars, List.mem_cons, not_or] at safe
    refine ⟨?_, ih hf.2 (fun u hu => (safe u hu).2)⟩
    rw [h.quantifiedVars_eq]
    exact hf.1

/-- The second formula uses the same variables in the same ways as the first,
and is well quantified if that is. -/
structure Preserves (f g : Formula) : Prop where
  freeVars : g.freeVars = f.freeVars
  quantifiedVars : g.quantifiedVars = f.quantifiedVars
  wellQuantified : f.WellQuantified → g.WellQuantified

theorem Altered.preserves {change : Formula → Option Formula}
    (keeps : ∀ f g, change f = some g → Preserves f g) (h : Altered change f g) :
    Preserves f g := by
  induction h with
  | here h => exact keeps _ _ h
  | neg _ ih => exact ⟨by rw [freeVars_neg, freeVars_neg, ih.freeVars], ih.quantifiedVars,
      ih.wellQuantified⟩
  | @left op f g r _ ih =>
    refine ⟨by rw [freeVars_binary, freeVars_binary, ih.freeVars], ?_, ?_⟩
    · exact congrArg (· ++ r.quantifiedVars) ih.quantifiedVars
    · rintro ⟨hf, hr, hfr, hrf⟩
      refine ⟨ih.wellQuantified hf, hr, ?_, ?_⟩
      · rwa [ih.freeVars]
      · rwa [ih.quantifiedVars]
  | @right op l f g _ ih =>
    refine ⟨by rw [freeVars_binary, freeVars_binary, ih.freeVars], ?_, ?_⟩
    · exact congrArg (l.quantifiedVars ++ ·) ih.quantifiedVars
    · rintro ⟨hl, hf, hlf, hfl⟩
      refine ⟨hl, ih.wellQuantified hf, ?_, ?_⟩
      · rwa [ih.quantifiedVars]
      · rwa [ih.freeVars]
  | @body q v f g _ ih =>
    refine ⟨by rw [freeVars_quantified, freeVars_quantified, ih.freeVars], ?_, ?_⟩
    · exact congrArg (List.cons v) ih.quantifiedVars
    · rintro ⟨hv, hf⟩
      refine ⟨?_, ih.wellQuantified hf⟩
      rwa [ih.quantifiedVars]

end Formula

/-- A result with a property, or a failure for another reason than that a
formula is not well quantified. -/
def Formed {α : Type} (P : α → Prop) : Except Cause α → Prop
  | .ok a => P a
  | .error c => c.kind ≠ some .malformed

theorem Formed.bind {α β : Type} {P : α → Prop} {Q : β → Prop} {x : Except Cause α}
    {next : α → Except Cause β} (hx : Formed P x) (hnext : ∀ a, P a → Formed Q (next a)) :
    Formed Q (x >>= next) := by
  cases x with
  | error c => exact hx
  | ok a => exact hnext a hx

namespace Inference

variable {n m k : UInt64} {v : Variable} {t : Term} {f g : Formula}

theorem formed_specify (hf : f.WellQuantified) :
    Formed Formula.WellQuantified (specify n v t f) := by
  unfold specify
  split
  · next w body =>
    split
    · next hwv =>
      subst hwv
      dsimp only
      split
      · rintro ⟨⟩
      · next hnone =>
        exact (Formula.framed_substitute w t body).wellQuantified hf.2
          (not_mem_quantifiedVars_of_find? hf.1 hnone)
    · rintro ⟨⟩
  · rintro ⟨⟩

theorem formed_generalize {premise : Option Formula} (hf : f.WellQuantified) :
    Formed Formula.WellQuantified (generalize n v premise f) := by
  unfold generalize
  split
  · rintro ⟨⟩
  · next hbound =>
    have hbound : v ∉ f.quantifiedVars := by simpa using hbound
    split
    · exact ⟨hbound, hf⟩
    · split
      · rintro ⟨⟩
      · exact ⟨hbound, hf⟩

/-- Neither the placeholder nor the variable that takes its place is bound. -/
theorem formed_exhibit (hf : f.WellQuantified) :
    Formed Formula.WellQuantified (exhibit n t v f) := by
  obtain ⟨-, -, hplaceholder, -⟩ := placeholder_not_mem f t v
  unfold exhibit
  split
  · rintro ⟨⟩
  · next hbound =>
    have hbound : v ∉ f.quantifiedVars := by simpa using hbound
    dsimp only
    split
    · rintro ⟨⟩
    · have hbody : (f.replaceTerm t (.var (placeholder f t v))).WellQuantified :=
        (Formula.framed_replaceTerm t _ f).wellQuantified hf
          (by simpa [Term.occurrences] using hplaceholder)
      refine ⟨by simpa using hbound, ?_⟩
      exact (Formula.framed_substitute _ _ _).wellQuantified hbody
        (by simpa [Term.occurrences] using hbound)

theorem preserves_negatedThereIs (h : negatedThereIs v f = some g) : f.Preserves g := by
  unfold negatedThereIs at h
  split at h
  · split at h
    · next hwv =>
      subst hwv
      cases h
      exact ⟨by simp only [Formula.freeVars_neg, Formula.freeVars_quantified], rfl, id⟩
    · cases h
  · cases h

theorem preserves_forAllNegated (h : forAllNegated v f = some g) : f.Preserves g := by
  unfold forAllNegated at h
  split at h
  · split at h
    · next hwv =>
      subst hwv
      cases h
      exact ⟨by simp only [Formula.freeVars_neg, Formula.freeVars_quantified], rfl, id⟩
    · cases h
  · cases h

theorem preserves_doubleNegation (h : doubleNegation f = some g) : f.Preserves g := by
  cases h
  exact ⟨by simp only [Formula.freeVars_neg], rfl, id⟩

theorem preserves_withoutDoubleNegation (h : withoutDoubleNegation f = some g) :
    f.Preserves g := by
  unfold withoutDoubleNegation at h
  split at h
  · cases h
    exact ⟨by simp only [Formula.freeVars_neg], rfl, id⟩
  · cases h

theorem formed_alterOccurrence {change : Formula → Option Formula} {complaint : Cause}
    (keeps : ∀ f g, change f = some g → f.Preserves g) (hf : f.WellQuantified)
    (hcomplaint : complaint.kind ≠ some .malformed) :
    Formed Formula.WellQuantified (alterOccurrence change k complaint f) := by
  unfold alterOccurrence
  split
  · next hg => exact ((Formula.altered_of_alterNth hg).preserves keeps).wellQuantified hf
  · exact hcomplaint

theorem formed_succeed : Formed Formula.WellQuantified (succeed n f) := by
  unfold succeed sides
  split
  · trivial
  · rintro ⟨⟩

theorem formed_precede : Formed Formula.WellQuantified (precede n f) := by
  unfold precede sides
  split
  · dsimp only [bind, Except.bind]
    split
    · trivial
    · rintro ⟨⟩
  · rintro ⟨⟩

theorem formed_flip : Formed Formula.WellQuantified (flip n f) := by
  unfold flip sides
  split
  · trivial
  · rintro ⟨⟩

theorem formed_chain : Formed Formula.WellQuantified (chain n m f g) := by
  unfold chain
  split
  · split
    · trivial
    · rintro ⟨⟩
  · rintro ⟨⟩

theorem formed_induct (hg : g.WellQuantified) :
    Formed Formula.WellQuantified (induct v n f g) := by
  unfold induct
  split
  · next w statement consequent =>
    split
    · next hwv =>
      subst hwv
      dsimp only
      split
      · rintro ⟨⟩
      · next hbound =>
        have hbound : w ∉ statement.quantifiedVars := by simpa using hbound
        split
        · rintro ⟨⟩
        · split
          · rintro ⟨⟩
          · split
            · rintro ⟨⟩
            · exact ⟨hbound, hg.2.1⟩
    · rintro ⟨⟩
  · rintro ⟨⟩

theorem formed_separate {side : Side} (hf : f.WellQuantified) :
    Formed Formula.WellQuantified (separate n side f) := by
  unfold separate
  split
  · cases side with
    | left => exact hf.1
    | right => exact hf.2.1
  · rintro ⟨⟩

theorem formed_detach (hg : g.WellQuantified) :
    Formed Formula.WellQuantified (detach n m f g) := by
  unfold detach
  split
  · split
    · exact hg.2.1
    · rintro ⟨⟩
  · rintro ⟨⟩

/-- Which side is which and what the connective is does not matter, and
negations on the sides do not, either. -/
theorem formed_contrapose (hf : f.WellQuantified) :
    Formed Formula.WellQuantified (contrapose n f) := by
  unfold contrapose
  split
  · simp only [Formula.WellQuantified, Formula.mem_freeVars_neg, Formula.quantifiedVars] at hf
    exact ⟨hf.2.1, hf.1, hf.2.2.2, hf.2.2.1⟩
  · simp only [Formed, Formula.WellQuantified, Formula.mem_freeVars_neg, Formula.quantifiedVars]
    exact ⟨hf.2.1, hf.1, hf.2.2.2, hf.2.2.1⟩
  · rintro ⟨⟩

theorem formed_exchangeDeMorgan (hf : f.WellQuantified) :
    Formed Formula.WellQuantified (exchangeDeMorgan n f) := by
  unfold exchangeDeMorgan
  split
  · simpa only [Formed, Formula.WellQuantified, Formula.mem_freeVars_neg,
      Formula.quantifiedVars] using hf
  · simpa only [Formed, Formula.WellQuantified, Formula.mem_freeVars_neg,
      Formula.quantifiedVars] using hf
  · rintro ⟨⟩

theorem formed_exchangeSwitcheroo (hf : f.WellQuantified) :
    Formed Formula.WellQuantified (exchangeSwitcheroo n f) := by
  unfold exchangeSwitcheroo
  split
  · simpa only [Formed, Formula.WellQuantified, Formula.mem_freeVars_neg,
      Formula.quantifiedVars] using hf
  · simpa only [Formed, Formula.WellQuantified, Formula.mem_freeVars_neg,
      Formula.quantifiedVars] using hf
  · rintro ⟨⟩

/-- Every rule but joining leads from well-quantified theorems to a
well-quantified one. -/
theorem formed_conclude {use : UInt64 → Except Cause Formula}
    {premise : Except Cause (Option Formula)} (husable : ∀ n, Formed Formula.WellQuantified (use n))
    (hpremise : Formed (fun _ => True) premise) {i : Inference} (hi : i.rule ≠ .joining) :
    Formed Formula.WellQuantified (i.conclude use premise) := by
  cases i with
  | specification n v t => exact (husable n).bind (fun f hf => formed_specify hf)
  | generalization n v =>
    exact (husable n).bind (fun f hf => hpremise.bind (fun _ _ => formed_generalize hf))
  | existence n t v => exact (husable n).bind (fun f hf => formed_exhibit hf)
  | interchangeEA n v k =>
    exact (husable n).bind (fun f hf =>
      formed_alterOccurrence (fun _ _ => preserves_negatedThereIs) hf (by rintro ⟨⟩))
  | interchangeAE n v k =>
    exact (husable n).bind (fun f hf =>
      formed_alterOccurrence (fun _ _ => preserves_forAllNegated) hf (by rintro ⟨⟩))
  | successor n => exact (husable n).bind (fun f _ => formed_succeed)
  | predecessor n => exact (husable n).bind (fun f _ => formed_precede)
  | symmetry n => exact (husable n).bind (fun f _ => formed_flip)
  | transitivity n m =>
    exact (husable n).bind (fun f _ => (husable m).bind (fun g _ => formed_chain))
  | induction v base general =>
    exact (husable base).bind (fun f _ => (husable general).bind (fun g hg => formed_induct hg))
  | joining n m => exact absurd rfl hi
  | separation n side => exact (husable n).bind (fun f hf => formed_separate hf)
  | detachment n m =>
    exact (husable n).bind (fun f _ => (husable m).bind (fun g hg => formed_detach hg))
  | contrapositive n => exact (husable n).bind (fun f hf => formed_contrapose hf)
  | deMorgan n => exact (husable n).bind (fun f hf => formed_exchangeDeMorgan hf)
  | switcheroo n => exact (husable n).bind (fun f hf => formed_exchangeSwitcheroo hf)
  | addDoubleTilde n k =>
    exact (husable n).bind (fun f hf =>
      formed_alterOccurrence (fun _ _ => preserves_doubleNegation) hf (by rintro ⟨⟩))
  | removeDoubleTilde n k =>
    exact (husable n).bind (fun f hf =>
      formed_alterOccurrence (fun _ _ => preserves_withoutDoubleNegation) hf (by rintro ⟨⟩))

end Inference

namespace Deduction

variable {d d' : Deduction} {f : Formula}

theorem wellQuantified_run (title : String) (axioms : List Formula) (moves : List Move) :
    ((start title axioms).run moves).Coherent ∧
      ∀ s ∈ ((start title axioms).run moves).steps, s.formula.WellQuantified := by
  refine run_induction (P := fun d => ∀ s ∈ d.steps, s.formula.WellQuantified) ?_ ?_ moves
  · intro s hs
    cases hs
  · intro d m f d' hc hd hm s hs
    have hf := Formula.checkWellFormed_iff.mp hm.wellFormed
    obtain ⟨scopes, j, rfl⟩ := hm.exists_extended
    rcases mem_steps_extended.mp hs with hs | rfl
    · exact hd s hs
    · exact hf

theorem formed_use (hc : d.Coherent) (hd : ∀ s ∈ d.steps, s.formula.WellQuantified)
    (n : UInt64) : Formed Formula.WellQuantified (d.use n) := by
  unfold use
  split
  · rintro ⟨⟩
  · next s hs =>
    have hformula := hd s (List.mem_of_getElem? hs)
    split
    · exact hformula
    · rw [hc.openScope]
      dsimp only [bind, Except.bind]
      split
      · exact hformula
      · rintro ⟨⟩

theorem formed_openPremise (hc : d.Coherent) : Formed (fun _ => True) d.openPremise := by
  obtain ⟨premise, hpremise⟩ := hc.exists_openPremise
  rw [hpremise]
  trivial

section Infer

variable (hc : d.Coherent) (hd : ∀ s ∈ d.steps, s.formula.WellQuantified) {i : Inference}
  (hi : i.rule ≠ .joining)

include hc hd hi

theorem formed_infer : Formed (fun r => r.1.WellQuantified) (d.infer i) := by
  have hconclude := Inference.formed_conclude (formed_use hc hd) (formed_openPremise hc) hi
  refine hconclude.bind (fun f hf => ?_)
  rw [derive_eq hc, admissible_eq_ok_iff.mpr (Formula.checkWellFormed_iff.mpr hf)]
  exact hf

/-- If a rule other than joining applies, its conclusion becomes a theorem. -/
theorem apply_infer_eq_ok (h : i.conclude d.use d.openPremise = .ok f) :
    f.checkWellFormed = .ok () ∧
      d.apply (.infer i) = .ok (f, d.extended d.scopes f (.inferred i)) := by
  have hconclude := Inference.formed_conclude (formed_use hc hd) (formed_openPremise hc) hi
  rw [h] at hconclude
  have hf := Formula.checkWellFormed_iff.mpr hconclude
  exact ⟨hf, (apply_eq_ok_iff hc).mpr (.inferred h hf)⟩

theorem apply_infer_eq_ok_iff :
    d.apply (.infer i) = .ok (f, d') ↔ i.conclude d.use d.openPremise = .ok f ∧
      d' = d.extended d.scopes f (.inferred i) := by
  constructor
  · intro h
    cases (apply_eq_ok_iff hc).mp h with
    | inferred follows _ => exact ⟨follows, rfl⟩
  · rintro ⟨h, rfl⟩
    exact (apply_infer_eq_ok hc hd hi h).2

theorem kind_ne_malformed {e : Failure} (h : d.apply (.infer i) = .error e) :
    e.cause.kind ≠ some .malformed := by
  have hinfer := formed_infer hc hd hi
  have happly : (d.infer i).mapError (Failure.mk (.rule i.rule)) = .error e := h
  cases hresult : d.infer i with
  | error c =>
    rw [hresult] at hinfer happly
    cases happly
    exact hinfer
  | ok r =>
    rw [hresult] at happly
    cases happly

end Infer

def openLaw : Formula := .equality (.sum Axioms.first .zero) Axioms.first

def closedLaw : Formula := .forAll (.austere 0) openLaw

/-- A variable is quantified twice, or is free in one of two theorems that are
put together and bound in the other. -/
theorem exists_malformed {r : Rule}
    (hr : r ∈ [Rule.postulate, .supposition, .joining, .implication]) :
    ∃ (title : String) (axioms : List Formula) (moves : List Move) (m : Move) (e : Failure),
      m.rule = r ∧ ((start title axioms).run moves).apply m = .error e ∧
        e.cause.kind = some .malformed := by
  have hr : r = .postulate ∨ r = .supposition ∨ r = .joining ∨ r = .implication := by
    simpa using hr
  let twice := Formula.forAll (.austere 0) closedLaw
  let requantified : Malformation := ⟨[.body], closedLaw, .austere 0, .requantified⟩
  rcases hr with rfl | rfl | rfl | rfl
  · exact ⟨"", Axioms.peano, [], .postulate twice,
      ⟨.rule .postulate, .malformed twice requantified⟩, rfl, by decide, rfl⟩
  · exact ⟨"", Axioms.peano, [], .suppose twice,
      ⟨.rule .supposition, .malformed twice requantified⟩, rfl, by decide, rfl⟩
  · let both := Formula.and openLaw closedLaw
    exact ⟨"", Axioms.peano, [.postulate openLaw, .postulate closedLaw], .infer (.joining 0 1),
      ⟨.rule .joining, .malformed both ⟨[], both, .austere 0, .crossed .and⟩⟩,
      rfl, by decide, rfl⟩
  · let both := Formula.implies openLaw closedLaw
    exact ⟨"", Axioms.peano, [.suppose openLaw, .postulate closedLaw], .discharge,
      ⟨.rule .implication, .malformed both ⟨[], both, .austere 0, .crossed .implies⟩⟩,
      rfl, by decide, rfl⟩

/-- The rules that may fail because a formula is not well quantified are exactly
four. Whatever another rule concludes is well quantified and becomes a theorem. -/
theorem malformed_rules :
    (∀ r : Rule, (∃ (title : String) (axioms : List Formula) (moves : List Move) (m : Move)
        (e : Failure), m.rule = r ∧ ((start title axioms).run moves).apply m = .error e ∧
          e.cause.kind = some .malformed) ↔
      r ∈ [Rule.postulate, .supposition, .joining, .implication]) ∧
    (∀ (title : String) (axioms : List Formula) (moves : List Move) (i : Inference)
        (f : Formula), i.rule ≠ .joining →
      let d := (start title axioms).run moves
      i.conclude d.use d.openPremise = .ok f →
        f.checkWellFormed = .ok () ∧ ∃ d', d.apply (.infer i) = .ok (f, d')) := by
  refine ⟨fun r => ⟨?_, ?_⟩, ?_⟩
  · rintro ⟨title, axioms, moves, m, e, rfl, happly, hkind⟩
    cases m with
    | postulate f => simp [Move.rule]
    | suppose f => simp [Move.rule]
    | discharge => simp [Move.rule]
    | infer i =>
      by_cases hi : i.rule = .joining
      · simp [Move.rule, hi]
      · obtain ⟨hc, hd⟩ := wellQuantified_run title axioms moves
        exact absurd hkind (kind_ne_malformed hc hd hi happly)
  · exact exists_malformed
  · intro title axioms moves i f hi d h
    obtain ⟨hc, hd⟩ := wellQuantified_run title axioms moves
    obtain ⟨hf, happly⟩ := apply_infer_eq_ok hc hd hi h
    exact ⟨hf, _, happly⟩

/-- A specification under a supposition about the variable of the term. -/
theorem malformed_rules_specification :
    let i := Inference.specification 1 (.austere 0) (.succ Axioms.second)
    let f := Formula.equality (.sum (.succ Axioms.second) .zero) (.succ Axioms.second)
    let d := (start "" Axioms.peano).run
      [.suppose (.equality Axioms.second .zero), .postulate closedLaw]
    i.rule ≠ .joining ∧ i.conclude d.use d.openPremise = .ok f ∧
      f.checkWellFormed = .ok () ∧ ∃ d', d.apply (.infer i) = .ok (f, d') := by
  intro i f d
  have hi : i.rule ≠ .joining := by decide
  have hconclude : i.conclude d.use d.openPremise = .ok f := by decide
  exact ⟨hi, hconclude, malformed_rules.2 "" Axioms.peano _ i f hi hconclude⟩

end Deduction

end Typographical
