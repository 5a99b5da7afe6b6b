import Typographical.Proofs.Reading
import Typographical.Proofs.Soundness
import Typographical.Script.Check

/-!
# What an accepted script proves

The deduction that a script gives is reached by moves, so its last theorem is
true under the supposition that is still open, or under none. The goal of an
accepted script says the same as that theorem, up to the names of bound
variables. Hence it is true if the script closes all its suppositions.

Nothing makes a script do so. A script that supposes its goal and stops there is
accepted, whatever the goal.
-/

namespace Typographical

variable {I : Interpretation}

namespace Deduction

variable {d d' : Deduction} {f : Formula}

/-- The last theorem stands under the suppositions that are open. -/
def Aligned (d : Deduction) : Prop :=
  ∀ s, d.steps.getLast? = some s → s.depth = d.depth ∧ s.scopeStart = d.scopes.items.headD 0

theorem aligned_extended (scopes : Stack Nat) (j : Justification) :
    (d.extended scopes f j).Aligned := by
  intro s hs
  have hlast : some ⟨f, j, scopes.size, scopes.items.headD 0⟩ = some s := by
    simpa [extended] using hs
  cases hlast
  exact ⟨rfl, rfl⟩

theorem Granted.aligned {m : Move} (hm : d.Granted m f d') : d'.Aligned := by
  cases hm with
  | postulated => exact aligned_extended _ _
  | supposed => exact aligned_extended _ _
  | discharged => exact aligned_extended _ _
  | inferred => exact aligned_extended _ _

theorem aligned_start (title : String) (axioms : List Formula) :
    (start title axioms).Aligned := by
  intro s hs
  cases hs

theorem Closed.depth_eq_zero (h : d.Closed) : d.depth = 0 := by
  rw [depth, h]
  rfl

theorem lastTheorem_eq_ok_iff :
    d.lastTheorem = .ok f ↔ ∃ s, d.steps.getLast? = some s ∧ s.formula = f := by
  rw [lastTheorem]
  split
  · next s hs => simp [hs]
  · next hs => simp [hs]

/-- The last theorem is true if no supposition is open, and otherwise wherever
the premise of the open one is. -/
theorem Sound.lastTheorem (h : d.Sound I) (hc : d.Coherent) (ha : d.Aligned)
    (hf : d.lastTheorem = .ok f) :
    (d.depth = 0 → f.Valid I) ∧
      (d.depth ≠ 0 → ∃ p, d.openPremise = .ok (some p) ∧ f.ValidUnder I (some p)) := by
  obtain ⟨s, hs, rfl⟩ := lastTheorem_eq_ok_iff.mp hf
  obtain ⟨hdepth, hstart⟩ := ha s hs
  obtain ⟨houtside, hunder⟩ := h.supported s (List.mem_of_getLast? hs)
  rw [hdepth] at houtside hunder
  refine ⟨houtside, fun hopen => ?_⟩
  obtain ⟨p, hp, hvalid⟩ := hunder hopen
  rcases hc with hc | ⟨origin, hc⟩
  · exact absurd hc.depth_eq_zero hopen
  · have horigin : s.scopeStart = origin := by
      rw [hstart, hc.scopes]
      rfl
    rw [horigin] at hp
    exact ⟨p.formula, hc.openPremise hp, hvalid⟩

end Deduction

namespace Script

theorem Step.exists_perform_eq_run (s : Step) (d : Deduction) :
    ∃ moves, (s.perform d).1 = d.run moves := by
  rw [Step.perform]
  split
  · exact ⟨[], rfl⟩
  · next m hm =>
    split
    · exact ⟨[], rfl⟩
    · next f d' happly =>
      have hadvance : d.run [m] = d' := by
        change d.advance m = d'
        rw [Deduction.advance, happly]
      refine ⟨[m], ?_⟩
      split
      · exact hadvance.symm
      · exact hadvance.symm

theorem exists_runSteps_eq_run (steps : List Step) (d : Deduction) (index : Nat) :
    ∃ moves, (runSteps d index steps).1 = d.run moves := by
  induction steps generalizing d index with
  | nil => exact ⟨[], rfl⟩
  | cons s rest ih =>
    obtain ⟨first, hfirst⟩ := s.exists_perform_eq_run d
    rw [runSteps]
    split
    · next d' hperform =>
      obtain ⟨more, hmore⟩ := ih d' (index + 1)
      have hd : d' = d.run first := by rw [← hfirst, hperform]
      refine ⟨first ++ more, ?_⟩
      rw [hmore, hd, Deduction.run, Deduction.run, Deduction.run, List.foldl_append]
    · next d' e hperform =>
      rw [hperform] at hfirst
      exact ⟨first, hfirst⟩

variable {s : Script} {axioms : List Formula}

theorem run_fst : (s.run axioms).1 = (runSteps (.start s.title axioms) 0 s.steps).1 := by
  rw [run]
  split
  · next h => rw [h]
  · next h =>
    rw [h]
    split
    · rfl
    · split
      · rfl
      · rfl

/-- The deduction of a script is reached by moves. -/
theorem exists_check_eq_run (s : Script) (axioms : List Formula) :
    ∃ moves, (s.check axioms).1 = (Deduction.start s.title axioms).run moves := by
  change ∃ moves, (s.run axioms).1 = _
  rw [run_fst]
  exact exists_runSteps_eq_run s.steps _ 0

theorem reaches_eq_ok_iff {goal : String} {d : Deduction} :
    reaches goal d = .ok () ↔ ∃ f g, Formula.parse goal = .ok f ∧ d.lastTheorem = .ok g ∧
      f.AlphaEquivalent g := by
  unfold reaches
  split
  · next h => simp [h]
  · next f hf =>
    split
    · next h => simp [h]
    · next g hg =>
      simp only [hf, hg, Except.ok.injEq, exists_and_left, exists_eq_left',
        ← Formula.austere_eq_iff, Formula.austereEquals, decide_eq_true_eq]
      split
      · next h => simp [h]
      · next h => simp [h]

/-- A script is accepted if all its steps succeed and reach its goal. -/
theorem check_eq_none_iff (hflaw : s.flaw = "") (hgoal : s.goal ≠ "") :
    (s.check axioms).2 = none ↔ (runSteps (.start s.title axioms) 0 s.steps).2 = none ∧
      reaches s.goal (s.check axioms).1 = .ok () := by
  have hverdict : (s.check axioms).2 = none ↔ (s.run axioms).2 = none := by
    change s.verify (s.run axioms).2 = none ↔ _
    unfold verify
    rw [if_pos hflaw, Option.map_eq_none_iff]
  have hdeduction : (s.check axioms).1 = (runSteps (.start s.title axioms) 0 s.steps).1 := run_fst
  rw [hverdict, hdeduction, run]
  split
  · next d e h => simp [h]
  · next d h =>
    rw [h, if_neg hgoal]
    split
    · next e he => simp [he]
    · next he => simp [he]

/-- The goal of an accepted script is true if no supposition is open at its end,
and otherwise wherever the premise of the open one is. -/
theorem goal_holds (hvalid : ∀ f ∈ axioms, f.Valid I) (hflaw : s.flaw = "") (hgoal : s.goal ≠ "")
    (haccepted : (s.check axioms).2 = none) :
    ∃ f, Formula.parse s.goal = .ok f ∧ ((s.check axioms).1.depth = 0 → f.Valid I) ∧
      ((s.check axioms).1.depth ≠ 0 → ∃ p, (s.check axioms).1.openPremise = .ok (some p) ∧
        f.ValidUnder I (some p)) := by
  obtain ⟨-, hreaches⟩ := (check_eq_none_iff hflaw hgoal).mp haccepted
  obtain ⟨f, g, hf, hg, hsame⟩ := reaches_eq_ok_iff.mp hreaches
  obtain ⟨moves, hrun⟩ := exists_check_eq_run s axioms
  obtain ⟨hcoherent, haligned⟩ := Deduction.run_induction (Deduction.aligned_start s.title axioms)
    (fun _ _ _ _ _ _ hm => hm.aligned) moves
  have hsound := Deduction.sound_run hvalid s.title moves
  rw [hrun] at hg ⊢
  obtain ⟨houtside, hunder⟩ := hsound.lastTheorem hcoherent haligned hg
  refine ⟨f, hf, fun hclosed => hsame.valid_iff.mpr (houtside hclosed), fun hopen => ?_⟩
  obtain ⟨p, hp, hvalidUnder⟩ := hunder hopen
  exact ⟨p, hp, fun σ hσ => (hsame.holds_iff σ).mpr (hvalidUnder σ hσ)⟩

def Step.supposing (f : Formula) : Step := { rule := Rule.supposition.name, formula := f.text }

/-- A script that supposes its goal and does nothing else. -/
def supposing (f : Formula) : Script := { goal := f.text, steps := [.supposing f] }

theorem Step.move_supposing {f : Formula} (hf : f.checkWellFormed = .ok ()) :
    (supposing f).move = .ok (.suppose f) := by
  have hrule : Rule.ofName? (supposing f).rule = some .supposition := rfl
  have hread : (supposing f).readFormula = .ok f := by
    rw [readFormula, supposing, if_neg f.text_ne_empty, Formula.parse_text_eq_ok_iff.mpr hf]
  rw [move, hrule]
  change (supposing f).readFormula.map Move.suppose = _
  rw [hread]
  rfl

/-- Where no supposition is open, any well-quantified formula can be supposed. -/
theorem Step.perform_supposing {f : Formula} (hf : f.checkWellFormed = .ok ()) {d : Deduction}
    (hd : d.Closed) :
    (supposing f).perform d = (d.extended ⟨[d.size], Deduction.maxDepth⟩ f .supposed, none) := by
  have happly := (Deduction.apply_eq_ok_iff (Or.inl hd)).mpr (.supposed hd hf)
  have hmeets : (supposing f).meets f = .ok () := rfl
  simp only [perform, move_supposing hf, happly, hmeets]

theorem runSteps_supposing {f : Formula} (hf : f.checkWellFormed = .ok ()) (title : String)
    (axioms : List Formula) :
    runSteps (.start title axioms) 0 [.supposing f] =
      ((Deduction.start title axioms).extended ⟨[0], Deduction.maxDepth⟩ f .supposed, none) := by
  simp only [runSteps, Step.perform_supposing hf (d := .start title axioms) rfl]
  rfl

theorem check_supposing {f : Formula} (hf : f.checkWellFormed = .ok ()) (axioms : List Formula) :
    (supposing f).check axioms =
      ((Deduction.start "" axioms).extended ⟨[0], Deduction.maxDepth⟩ f .supposed, none) := by
  have hsteps := runSteps_supposing hf "" axioms
  have hdeduction : ((supposing f).check axioms).1 =
      (Deduction.start "" axioms).extended ⟨[0], Deduction.maxDepth⟩ f .supposed :=
    run_fst.trans (congrArg Prod.fst hsteps)
  have hlast : ((supposing f).check axioms).1.lastTheorem = .ok f := by
    rw [hdeduction]
    rfl
  have hreaches : reaches (supposing f).goal ((supposing f).check axioms).1 = .ok () :=
    reaches_eq_ok_iff.mpr ⟨f, f, Formula.parse_text_eq_ok_iff.mpr hf, hlast, rfl⟩
  have hverdict : ((supposing f).check axioms).2 = none :=
    (check_eq_none_iff rfl f.text_ne_empty).mpr ⟨congrArg Prod.snd hsteps, hreaches⟩
  exact Prod.ext hdeduction hverdict

/-- If a script over the axioms of arithmetic is accepted and closes all its
suppositions, its goal is true; if it leaves one open, its goal follows from the
premise. More cannot be said, since every well-quantified formula is the goal of
an accepted script that leaves a supposition open. -/
theorem accepted_goal_true (s : Script) (hflaw : s.flaw = "") (hgoal : s.goal ≠ "")
    (haccepted : (s.check Axioms.peano).2 = none) :
    (∃ f, Formula.parse s.goal = .ok f ∧
      ((s.check Axioms.peano).1.depth = 0 → ∀ σ, f.Holds .standard σ) ∧
      ((s.check Axioms.peano).1.depth ≠ 0 →
        ∃ p, (s.check Axioms.peano).1.openPremise = .ok (some p) ∧
          ∀ σ, p.Holds .standard σ → f.Holds .standard σ)) ∧
    ∀ g : Formula, g.checkWellFormed = .ok () →
      ∃ s' : Script, s'.flaw = "" ∧ s'.goal ≠ "" ∧ Formula.parse s'.goal = .ok g ∧
        (s'.check Axioms.peano).2 = none ∧ (s'.check Axioms.peano).1.depth ≠ 0 := by
  constructor
  · obtain ⟨f, hf, houtside, hunder⟩ := goal_holds Axioms.valid_peano hflaw hgoal haccepted
    refine ⟨f, hf, houtside, fun hopen => ?_⟩
    obtain ⟨p, hp, hvalid⟩ := hunder hopen
    exact ⟨p, hp, fun σ hσ => hvalid σ (by simpa using hσ)⟩
  · intro g hg
    have hcheck := check_supposing hg Axioms.peano
    refine ⟨supposing g, rfl, g.text_ne_empty, Formula.parse_text_eq_ok_iff.mpr hg, ?_, ?_⟩
    · rw [hcheck]
    · rw [hcheck]
      exact Nat.one_ne_zero

/-- A script with a supposition that it closes, and a false formula that a script
supposes only. -/
theorem accepted_goal_true_symmetric :
    let s : Script :=
      { goal := "[b=0>0=b]"
        steps := [
          { rule := "supposition", formula := "b=0" }, { rule := "symmetry", references := [0] },
          { rule := "implication" }] }
    let absurdity := Formula.equality .zero (.succ .zero)
    ((s.check Axioms.peano).2 = none ∧ (s.check Axioms.peano).1.depth = 0 ∧
      ∃ f, Formula.parse s.goal = .ok f ∧ ∀ σ, f.Holds .standard σ) ∧
    (absurdity.checkWellFormed = .ok () ∧
      ∃ s : Script, s.flaw = "" ∧ s.goal ≠ "" ∧ Formula.parse s.goal = .ok absurdity ∧
        (s.check Axioms.peano).2 = none ∧ (s.check Axioms.peano).1.depth ≠ 0) := by
  intro s absurdity
  have haccepted : (s.check Axioms.peano).2 = none := by
    subst s
    decide +kernel
  have hclosed : (s.check Axioms.peano).1.depth = 0 := by
    subst s
    decide +kernel
  obtain ⟨⟨f, hf, htrue, -⟩, hany⟩ := accepted_goal_true s rfl (by decide) haccepted
  exact ⟨⟨haccepted, hclosed, f, hf, htrue hclosed⟩, rfl, hany absurdity rfl⟩

/-- A script that is accepted though its goal is false. -/
theorem accepted_zero_eq_one :
    let s : Script := { goal := "0=S0", steps := [{ rule := "supposition", formula := "0=S0" }] }
    s.flaw = "" ∧ s.goal ≠ "" ∧ (s.check Axioms.peano).2 = none ∧
      ∃ f, Formula.parse s.goal = .ok f ∧ ∀ σ, ¬ f.Holds .standard σ := by
  intro s
  have haccepted : (s.check Axioms.peano).2 = none := by
    subst s
    decide +kernel
  have hgoal : Formula.parse s.goal = .ok (.equality .zero (.succ .zero)) := by
    subst s
    rfl
  refine ⟨rfl, by decide, haccepted, _, hgoal, fun σ h => ?_⟩
  cases h

end Script

end Typographical
