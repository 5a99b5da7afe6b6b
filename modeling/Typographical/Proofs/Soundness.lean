import Typographical.Proofs.Alteration
import Typographical.Proofs.Deduction
import Typographical.Proofs.Substitution
import Typographical.Proofs.WellFormed

/-!
# Soundness

Every inference leads from formulas that are true under a valuation to one that
is true under the same valuation. The exception is generalization, which needs
its theorem to be true under every valuation that satisfies the premise of the
open supposition; but then all theorems that may be used are. So the log keeps
to the truth: a theorem that stands under no supposition is true under every
valuation, and one that stands under a supposition is true under every valuation
that satisfies its premise.

Of sums and products nothing is used beyond what the axioms say.
-/

namespace Typographical

variable {I : Interpretation} {σ : Valuation}

theorem Formula.Altered.holds_iff {change : Formula → Option Formula}
    (keeps : ∀ f g, change f = some g → ∀ σ, g.Holds I σ ↔ f.Holds I σ) {f g : Formula}
    (h : Altered change f g) (σ : Valuation) : g.Holds I σ ↔ f.Holds I σ := by
  induction h generalizing σ with
  | here h => exact keeps _ _ h σ
  | neg _ ih => exact not_congr (ih σ)
  | left _ ih => exact Connective.holds_congr _ (ih σ) Iff.rfl
  | right _ ih => exact Connective.holds_congr _ Iff.rfl (ih σ)
  | body _ ih => exact Quantifier.holds_congr _ (fun n => ih _)

namespace Inference

variable {n m k : UInt64} {v : Variable} {t : Term} {f g r : Formula}

/-- A well-quantified formula does not quantify `v` again below `Av`, so `v`
itself is safe in the term, too. -/
theorem not_mem_quantifiedVars_of_find? {body : Formula} (hv : v ∉ body.quantifiedVars)
    (hnone : t.vars.toList.find? (fun u => u ≠ v && body.boundVars.contains u) = none) :
    ∀ u ∈ t.occurrences, u ∉ body.quantifiedVars := by
  intro u hu
  by_cases huv : u = v
  · exact huv ▸ hv
  · have := List.find?_eq_none.mp hnone u (SortedSet.mem_def.mp (Term.mem_vars.mpr hu))
    simpa [huv] using this

theorem holds_specify (hw : f.WellQuantified) (h : specify n v t f = .ok g)
    (hf : f.Holds I σ) : g.Holds I σ := by
  unfold specify at h
  split at h
  · next w body =>
    split at h
    · next hwv =>
      subst hwv
      dsimp only at h
      split at h
      · cases h
      · next hnone =>
        cases h
        have hsafe := not_mem_quantifiedVars_of_find? hw.1 hnone
        exact (Formula.holds_substitute hsafe).mpr (hf _)
    · cases h
  · cases h

theorem placeholder_not_mem (f : Formula) (t : Term) (v : Variable) :
    placeholder f t v ≠ v ∧ placeholder f t v ∉ f.freeVars ∧
      placeholder f t v ∉ f.quantifiedVars ∧ placeholder f t v ∉ t.occurrences := by
  have h := fresh_not_mem ((f.allVars.union t.vars).insert v)
  simp only [SortedSet.mem_insert, SortedSet.mem_union, Formula.mem_allVars, Term.mem_vars,
    not_or] at h
  exact ⟨h.1, h.2.1.1, h.2.1.2, h.2.2⟩

/-- The value of the term is the number that exists. The placeholder carries it
from the term to the quantified variable. -/
theorem holds_exhibit (h : exhibit n t v f = .ok g) (hf : f.Holds I σ) : g.Holds I σ := by
  obtain ⟨hpv, hpfree, hpbound, -⟩ := placeholder_not_mem f t v
  unfold exhibit at h
  split at h
  · cases h
  · next hbound =>
    have hbound : v ∉ f.quantifiedVars := by simpa using hbound
    dsimp only at h
    split at h
    · cases h
    · next hout =>
      have hout : v ∉ (f.replaceTerm t (.var (placeholder f t v))).freeVars := by simpa using hout
      cases h
      have hsafe : ∀ u ∈ (Term.var v).occurrences,
          u ∉ (f.replaceTerm t (.var (placeholder f t v))).quantifiedVars := by
        simpa [Term.occurrences] using hbound
      refine ⟨t.value I σ, (Formula.holds_substitute hsafe).mpr ?_⟩
      simp only [Term.value, Function.update_self]
      rw [Function.update_comm hpv.symm, Formula.holds_update hout]
      refine (Formula.holds_replaceTerm hpbound ?_ (Function.update_self ..)).mpr hf
      intro u hu
      have hne : u ≠ placeholder f t v := by
        rintro rfl
        exact hpfree hu
      exact Function.update_of_ne hne _ _

theorem holds_negatedThereIs (h : negatedThereIs v f = some g) (σ : Valuation) :
    g.Holds I σ ↔ f.Holds I σ := by
  unfold negatedThereIs at h
  split at h
  · split at h
    · next hwv =>
      subst hwv
      cases h
      exact not_exists.symm
    · cases h
  · cases h

theorem holds_forAllNegated (h : forAllNegated v f = some g) (σ : Valuation) :
    g.Holds I σ ↔ f.Holds I σ := by
  unfold forAllNegated at h
  split at h
  · split at h
    · next hwv =>
      subst hwv
      cases h
      exact not_exists
    · cases h
  · cases h

theorem holds_doubleNegation (h : doubleNegation f = some g) (σ : Valuation) :
    g.Holds I σ ↔ f.Holds I σ := by
  cases h
  exact not_not

theorem holds_withoutDoubleNegation (h : withoutDoubleNegation f = some g) (σ : Valuation) :
    g.Holds I σ ↔ f.Holds I σ := by
  unfold withoutDoubleNegation at h
  split at h
  · cases h
    exact not_not.symm
  · cases h

theorem holds_alterOccurrence {change : Formula → Option Formula} {complaint : Cause}
    (keeps : ∀ f g, change f = some g → ∀ σ, g.Holds I σ ↔ f.Holds I σ)
    (h : alterOccurrence change k complaint f = .ok g) (hf : f.Holds I σ) : g.Holds I σ := by
  unfold alterOccurrence at h
  split at h
  · next hg =>
    cases h
    exact ((Formula.altered_of_alterNth hg).holds_iff keeps σ).mpr hf
  · cases h

theorem sides_eq_ok_iff {l r : Term} : sides n f = .ok (l, r) ↔ f = .equality l r := by
  unfold sides
  split
  · simp
  · next hne =>
    constructor
    · intro h
      cases h
    · intro h
      exact absurd h (hne l r)

theorem holds_succeed (h : succeed n f = .ok g) (hf : f.Holds I σ) : g.Holds I σ := by
  obtain ⟨⟨l, r⟩, hs, rfl⟩ := map_eq_ok_iff.mp h
  rw [sides_eq_ok_iff] at hs
  subst hs
  exact congrArg (· + 1) hf

theorem holds_precede (h : precede n f = .ok g) (hf : f.Holds I σ) : g.Holds I σ := by
  obtain ⟨⟨l, r⟩, hs, h⟩ := bind_eq_ok_iff.mp h
  rw [sides_eq_ok_iff] at hs
  subst hs
  split at h
  · next heq =>
    cases heq
    cases h
    exact Nat.succ.inj hf
  · cases h

theorem holds_flip (h : flip n f = .ok g) (hf : f.Holds I σ) : g.Holds I σ := by
  obtain ⟨⟨l, r⟩, hs, rfl⟩ := map_eq_ok_iff.mp h
  rw [sides_eq_ok_iff] at hs
  subst hs
  exact Eq.symm hf

theorem holds_chain (h : chain n m f g = .ok r) (hf : f.Holds I σ) (hg : g.Holds I σ) :
    r.Holds I σ := by
  unfold chain at h
  split at h
  · split at h
    · next heq =>
      subst heq
      cases h
      exact Eq.trans hf hg
    · cases h
  · cases h

theorem holds_induct (h : induct v n f g = .ok r) (hf : f.Holds I σ) (hg : g.Holds I σ) :
    r.Holds I σ := by
  unfold induct at h
  split at h
  · next w statement consequent =>
    split at h
    · next hwv =>
      subst hwv
      dsimp only at h
      split at h
      · cases h
      · next hbound =>
        have hbound : w ∉ statement.quantifiedVars := by simpa using hbound
        split at h
        · cases h
        · next hnext =>
          split at h
          · cases h
          · split at h
            · cases h
            · next hbase =>
              cases h
              rw [not_not] at hnext hbase
              subst hnext hbase
              have hzero : statement.Holds I (Function.update σ w 0) :=
                (Formula.holds_substitute (by simp [Term.occurrences])).mp hf
              intro k
              induction k with
              | zero => exact hzero
              | succ k ih =>
                have hstep := (Formula.holds_substitute
                  (by simpa [Term.occurrences] using hbound)).mp (hg k ih)
                simpa [Term.value] using hstep
    · cases h
  · cases h

theorem holds_separate {side : Side} (h : separate n side f = .ok g) (hf : f.Holds I σ) :
    g.Holds I σ := by
  unfold separate at h
  split at h
  · cases side with
    | left => cases h; exact hf.1
    | right => cases h; exact hf.2
  · cases h

theorem holds_detach (h : detach n m f g = .ok r) (hf : f.Holds I σ) (hg : g.Holds I σ) :
    r.Holds I σ := by
  unfold detach at h
  split at h
  · split at h
    · next heq =>
      subst heq
      cases h
      exact hg hf
    · cases h
  · cases h

theorem holds_contrapose (h : contrapose n f = .ok g) (hf : f.Holds I σ) : g.Holds I σ := by
  unfold contrapose at h
  split at h
  · cases h
    exact not_imp_not.mp hf
  · cases h
    exact not_imp_not.mpr hf
  · cases h

theorem holds_exchangeDeMorgan (h : exchangeDeMorgan n f = .ok g) (hf : f.Holds I σ) :
    g.Holds I σ := by
  unfold exchangeDeMorgan at h
  split at h
  · cases h
    exact not_or.mpr hf
  · cases h
    exact not_or.mp hf
  · cases h

theorem holds_exchangeSwitcheroo (h : exchangeSwitcheroo n f = .ok g) (hf : f.Holds I σ) :
    g.Holds I σ := by
  unfold exchangeSwitcheroo at h
  split at h
  · cases h
    exact or_iff_not_imp_left.mp hf
  · cases h
    exact or_iff_not_imp_left.mpr hf
  · cases h

end Inference

/-- Truth under every valuation that satisfies a premise, if there is one. -/
def Formula.ValidUnder (I : Interpretation) (premise : Option Formula) (f : Formula) : Prop :=
  ∀ σ, (∀ p ∈ premise, p.Holds I σ) → f.Holds I σ

theorem Formula.validUnder_none {f : Formula} : f.ValidUnder I none ↔ f.Valid I := by
  simp [ValidUnder, Valid]

theorem Formula.Valid.validUnder {f : Formula} (h : f.Valid I) (premise : Option Formula) :
    f.ValidUnder I premise := fun σ _ => h σ

namespace Inference

/-- The value of the generalized variable does not matter for the premise, so
the theorem holds for all of its values. -/
theorem validUnder_generalize {n : UInt64} {v : Variable} {premise : Option Formula}
    {f g : Formula} (h : generalize n v premise f = .ok g) (hf : f.ValidUnder I premise) :
    g.ValidUnder I premise := by
  unfold generalize at h
  split at h
  · cases h
  · split at h
    · cases h
      exact fun σ _ k => hf _ (by simp)
    · next p =>
      split at h
      · cases h
      · next hfree =>
        have hfree : v ∉ p.freeVars := by simpa using hfree
        cases h
        intro σ hσ k
        refine hf _ ?_
        simpa [Formula.holds_update hfree] using hσ

/-- An inference from theorems that are true under the premise is true under the
premise. All but generalization work valuation by valuation. -/
theorem validUnder_conclude {use : UInt64 → Except Cause Formula} {premise : Option Formula}
    (usable : ∀ n f, use n = .ok f → f.WellQuantified ∧ f.ValidUnder I premise)
    {i : Inference} {g : Formula} (h : i.conclude use (.ok premise) = .ok g) :
    g.ValidUnder I premise := by
  have pointwise : ∀ {n : UInt64} {conclude : Formula → Except Cause Formula},
      (∀ f, f.WellQuantified → conclude f = .ok g → ∀ σ, f.Holds I σ → g.Holds I σ) →
      use n >>= conclude = .ok g → g.ValidUnder I premise := by
    intro n conclude hlocal hbind σ hσ
    obtain ⟨f, huse, hf⟩ := bind_eq_ok_iff.mp hbind
    exact hlocal f (usable n f huse).1 hf σ ((usable n f huse).2 σ hσ)
  have pointwise₂ : ∀ {n m : UInt64} {conclude : Formula → Formula → Except Cause Formula},
      (∀ f f', conclude f f' = .ok g → ∀ σ, f.Holds I σ → f'.Holds I σ → g.Holds I σ) →
      (use n >>= fun f => use m >>= fun f' => conclude f f') = .ok g →
      g.ValidUnder I premise := by
    intro n m conclude hlocal hbind σ hσ
    obtain ⟨f, huse, hbind⟩ := bind_eq_ok_iff.mp hbind
    obtain ⟨f', huse', hf⟩ := bind_eq_ok_iff.mp hbind
    exact hlocal f f' hf σ ((usable n f huse).2 σ hσ) ((usable m f' huse').2 σ hσ)
  cases i with
  | specification n v t => exact pointwise (fun f hw hg σ => holds_specify hw hg) h
  | generalization n v =>
    obtain ⟨f, huse, hbind⟩ := bind_eq_ok_iff.mp h
    exact validUnder_generalize hbind (usable n f huse).2
  | existence n t v => exact pointwise (fun f _ hg σ => holds_exhibit hg) h
  | interchangeEA n v k =>
    exact pointwise (fun f _ hg σ => holds_alterOccurrence (fun _ _ => holds_negatedThereIs) hg) h
  | interchangeAE n v k =>
    exact pointwise (fun f _ hg σ => holds_alterOccurrence (fun _ _ => holds_forAllNegated) hg) h
  | successor n => exact pointwise (fun f _ hg σ => holds_succeed hg) h
  | predecessor n => exact pointwise (fun f _ hg σ => holds_precede hg) h
  | symmetry n => exact pointwise (fun f _ hg σ => holds_flip hg) h
  | transitivity n m => exact pointwise₂ (fun f f' hg σ => holds_chain hg) h
  | induction v base general => exact pointwise₂ (fun f f' hg σ => holds_induct hg) h
  | joining n m =>
    have hjoin : ∀ f f' : Formula, (pure (.and f f') : Except Cause Formula) = .ok g →
        ∀ σ, f.Holds I σ → f'.Holds I σ → g.Holds I σ := by
      intro f f' hg σ hf hf'
      cases hg
      exact ⟨hf, hf'⟩
    exact pointwise₂ hjoin h
  | separation n side => exact pointwise (fun f _ hg σ => holds_separate hg) h
  | detachment n m => exact pointwise₂ (fun f f' hg σ => holds_detach hg) h
  | contrapositive n => exact pointwise (fun f _ hg σ => holds_contrapose hg) h
  | deMorgan n => exact pointwise (fun f _ hg σ => holds_exchangeDeMorgan hg) h
  | switcheroo n => exact pointwise (fun f _ hg σ => holds_exchangeSwitcheroo hg) h
  | addDoubleTilde n k =>
    exact pointwise (fun f _ hg σ => holds_alterOccurrence (fun _ _ => holds_doubleNegation) hg) h
  | removeDoubleTilde n k =>
    exact pointwise
      (fun f _ hg σ => holds_alterOccurrence (fun _ _ => holds_withoutDoubleNegation) hg) h

end Inference

namespace Axioms

theorem valid_of_find? {axioms : List Formula} (hvalid : ∀ f ∈ axioms, f.Valid I)
    {f : Formula} {number : Nat} (h : find? axioms f = some number) : f.Valid I := by
  obtain ⟨hlt, hkey, -⟩ := List.findIdx?_eq_some_iff_getElem.mp h
  have hkey : f.key = axioms[number].key := by simpa using hkey
  have haxiom := hvalid _ (List.getElem_mem hlt)
  rwa [← Formula.valid_key, ← hkey, Formula.valid_key] at haxiom

theorem valid_peano : ∀ f ∈ peano, f.Valid .standard := by
  simp only [peano, List.forall_mem_cons, List.not_mem_nil, false_implies, implies_true, and_true]
  refine ⟨fun σ h => ?_, fun σ => ?_, fun σ => ?_, fun σ => ?_, fun σ => ?_⟩
  · exact Nat.succ_ne_zero _ h
  · exact Nat.add_zero _
  · exact Nat.add_succ _ _
  · exact Nat.mul_zero _
  · exact Nat.mul_succ _ _

end Axioms

namespace Deduction

/-- A theorem is true under the suppositions that it stands under. -/
def Supports (I : Interpretation) (d : Deduction) (s : Step) : Prop :=
  (s.depth = 0 → s.formula.Valid I) ∧
    (s.depth ≠ 0 → ∃ p, d.steps[s.scopeStart]? = some p ∧
      s.formula.ValidUnder I (some p.formula))

/-- What every run keeps true: axioms are true, and the theorems in the log are
well quantified and true under their suppositions. -/
structure Sound (I : Interpretation) (d : Deduction) : Prop where
  axioms : ∀ f ∈ d.axioms, f.Valid I
  wellQuantified : ∀ s ∈ d.steps, s.formula.WellQuantified
  supported : ∀ s ∈ d.steps, d.Supports I s

variable {d d' : Deduction} {f : Formula}

theorem Supports.extended {s : Step} (h : d.Supports I s) (scopes : Stack Nat) (f : Formula)
    (j : Justification) : (d.extended scopes f j).Supports I s := by
  refine ⟨h.1, fun hdepth => ?_⟩
  obtain ⟨p, hp, hs⟩ := h.2 hdepth
  exact ⟨p, getElem?_steps_extended.mpr (Or.inl hp), hs⟩

theorem Sound.extended (h : d.Sound I) {scopes : Stack Nat} {j : Justification}
    (hw : f.WellQuantified)
    (hs : (d.extended scopes f j).Supports I ⟨f, j, scopes.size, scopes.items.headD 0⟩) :
    (d.extended scopes f j).Sound I := by
  refine ⟨h.axioms, ?_, ?_⟩
  · intro s hmem
    rcases mem_steps_extended.mp hmem with hmem | rfl
    · exact h.wellQuantified s hmem
    · exact hw
  · intro s hmem
    rcases mem_steps_extended.mp hmem with hmem | rfl
    · exact (h.supported s hmem).extended scopes f j
    · exact hs

/-- Theorems that may be used are true under the premise of the open supposition
or, if none is open, without one. -/
theorem Sound.use (h : d.Sound I) (hc : d.Coherent) {premise : Option Formula}
    (hp : d.openPremise = .ok premise) {n : UInt64} (hu : d.use n = .ok f) :
    f.WellQuantified ∧ f.ValidUnder I premise := by
  obtain ⟨s, hs, rfl, hvisible⟩ := (use_eq_ok_iff hc).mp hu
  have hmem := List.mem_of_getElem? hs
  refine ⟨h.wellQuantified s hmem, ?_⟩
  by_cases hdepth : s.depth = 0
  · exact ((h.supported s hmem).1 hdepth).validUnder premise
  have hopen := hvisible.resolve_left hdepth
  rcases hc with hc | ⟨origin, hc⟩
  · rw [hc] at hopen
    cases hopen
  · rw [hc.scopes] at hopen
    cases hopen
    obtain ⟨p, hpremise, hvalid⟩ := (h.supported s hmem).2 hdepth
    rw [hc.openPremise hpremise] at hp
    cases hp
    exact hvalid

/-- A theorem added under the suppositions that are open is supported if it is
true under the open premise. -/
theorem Coherent.supports (hc : d.Coherent) {premise : Option Formula}
    (hp : d.openPremise = .ok premise) (hf : f.ValidUnder I premise) (j : Justification) :
    (d.extended d.scopes f j).Supports I ⟨f, j, d.scopes.size, d.scopes.items.headD 0⟩ := by
  rcases hc with hc | ⟨origin, hc⟩
  · rw [hc.openPremise] at hp
    cases hp
    refine ⟨fun _ => Formula.validUnder_none.mp hf, fun hdepth => ?_⟩
    rw [hc] at hdepth
    exact absurd rfl hdepth
  · obtain ⟨p, hpremise⟩ := hc.exists_premise
    rw [hc.openPremise hpremise] at hp
    cases hp
    refine ⟨fun hdepth => ?_, fun _ => ⟨p, getElem?_steps_extended.mpr (Or.inl ?_), hf⟩⟩
    · rw [hc.scopes] at hdepth
      cases hdepth
    · rw [hc.scopes]
      exact hpremise

theorem Coherent.exists_openPremise (hc : d.Coherent) :
    ∃ premise, d.openPremise = .ok premise := by
  rcases hc with hc | ⟨origin, hc⟩
  · exact ⟨none, hc.openPremise⟩
  · obtain ⟨p, hp⟩ := hc.exists_premise
    exact ⟨some p.formula, hc.openPremise hp⟩

theorem Granted.sound {m : Move} (hc : d.Coherent) (h : d.Sound I) (hm : d.Granted m f d') :
    d'.Sound I := by
  obtain ⟨premise, hp⟩ := hc.exists_openPremise
  have hw := Formula.checkWellFormed_iff.mp hm.wellFormed
  cases hm with
  | postulated found =>
    have hvalid := Axioms.valid_of_find? h.axioms found
    exact h.extended hw (hc.supports hp (hvalid.validUnder premise) _)
  | supposed closed =>
    refine h.extended hw ⟨fun hdepth => absurd hdepth Nat.one_ne_zero, fun _ => ?_⟩
    refine ⟨⟨f, .supposed, 1, d.size⟩, getElem?_steps_extended.mpr (Or.inr ⟨rfl, rfl⟩), ?_⟩
    exact fun σ hσ => hσ f rfl
  | @discharged origin premise last opened first final _ =>
    refine h.extended hw ⟨fun _ σ hpremise => ?_, fun hdepth => absurd rfl hdepth⟩
    have hinside := opened.inside
    obtain ⟨hdepth, hstart⟩ := opened.block (d.size - 1) (by omega) last final
    obtain ⟨p, hp, hvalid⟩ := (h.supported last (List.mem_of_getElem? final)).2 (by omega)
    rw [hstart, first] at hp
    cases hp
    exact hvalid σ (by simpa using hpremise)
  | inferred follows =>
    rw [hp] at follows
    have hvalid := Inference.validUnder_conclude (fun n g hg => h.use hc hp hg) follows
    exact h.extended hw (hc.supports hp hvalid _)

theorem sound_start {axioms : List Formula} (hvalid : ∀ f ∈ axioms, f.Valid I)
    (title : String) : (start title axioms).Sound I := by
  refine ⟨hvalid, ?_, ?_⟩
  all_goals
    intro s hs
    cases hs

theorem sound_run {axioms : List Formula} (hvalid : ∀ f ∈ axioms, f.Valid I) (title : String)
    (moves : List Move) : ((start title axioms).run moves).Sound I :=
  (run_induction (sound_start hvalid title) (fun _ _ _ _ hc h hm => hm.sound hc h) moves).2

/-- Whatever is done, every theorem in the log is true under the suppositions
that it stands under, and the axioms of arithmetic may be used for that. -/
theorem log_true :
    (∀ (I : Interpretation) (axioms : List Formula), (∀ f ∈ axioms, f.Valid I) →
      ∀ (title : String) (moves : List Move),
        let d := (start title axioms).run moves
        (∀ s ∈ d.steps, s.depth = 0 → ∀ σ, s.formula.Holds I σ) ∧
        (∀ s ∈ d.steps, s.depth = 1 → ∃ p, d.steps[s.scopeStart]? = some p ∧
          ∀ σ, p.formula.Holds I σ → s.formula.Holds I σ)) ∧
    (∀ f ∈ Axioms.peano, f.Valid .standard) := by
  refine ⟨fun I axioms hvalid title moves => ?_, Axioms.valid_peano⟩
  have hsound := sound_run hvalid title moves
  refine ⟨fun s hs hdepth => (hsound.supported s hs).1 hdepth, fun s hs hdepth => ?_⟩
  obtain ⟨p, hp, hf⟩ := (hsound.supported s hs).2 (by omega)
  exact ⟨p, hp, fun σ hσ => hf σ (by simpa using hσ)⟩

/-- A supposition over the axioms of arithmetic, with two moves that fail. -/
theorem log_true_successor :
    let premise := Formula.equality Axioms.first .zero
    let conclusion := Formula.equality (.succ Axioms.first) (.succ .zero)
    let d := (start "" Axioms.peano).run [
      .suppose premise, .infer (.successor 0), .infer (.generalization 1 (.austere 0)),
      .discharge, .infer (.symmetry 0)]
    d.steps = [⟨premise, .supposed, 1, 0⟩, ⟨conclusion, .inferred (.successor 0), 1, 0⟩,
      ⟨.implies premise conclusion, .discharged 0 1, 0, 0⟩] ∧
    (∀ σ, (Formula.implies premise conclusion).Holds .standard σ) ∧
    ∃ p, d.steps[0]? = some p ∧ ∀ σ, p.formula.Holds .standard σ →
      conclusion.Holds .standard σ := by
  intro premise conclusion d
  have hsteps : d.steps = [⟨premise, .supposed, 1, 0⟩,
      ⟨conclusion, .inferred (.successor 0), 1, 0⟩,
      ⟨.implies premise conclusion, .discharged 0 1, 0, 0⟩] := by decide
  have htrue := log_true.1 .standard Axioms.peano log_true.2 "" [
    .suppose premise, .infer (.successor 0), .infer (.generalization 1 (.austere 0)),
    .discharge, .infer (.symmetry 0)]
  refine ⟨hsteps, htrue.1 ⟨.implies premise conclusion, .discharged 0 1, 0, 0⟩ ?_ rfl,
    htrue.2 ⟨conclusion, .inferred (.successor 0), 1, 0⟩ ?_ rfl⟩
  · change _ ∈ d.steps
    simp [hsteps]
  · change _ ∈ d.steps
    simp [hsteps]

end Deduction

end Typographical
