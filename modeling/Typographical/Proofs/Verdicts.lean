import Mathlib.Logic.Basic
import Typographical.Script.Check

/-!
# Verdicts on failing scripts

No failure has two different flaws in the tree of its layers, since each kind of
failure brings in one flaw at most. So what a script may announce without an
objection is settled by what it does: nothing if it succeeds, and the names of one
flaw at most if it fails.
-/

namespace Typographical

namespace Script

/-- The flaw of a formula that is given but cannot be used. That a formula
cannot be read is no flaw that a script can announce, unless an argument of a
rule is concerned. -/
def parseFlaw : ParseError → Option Flaw
  | .unreadable _ => none
  | .malformed _ _ => some (.rule .malformed)

def StepFailure.flaw : StepFailure → Option Flaw
  | unknownRule _ | arguments _ | invalidVariable _ => none
  | unreadable _ => some .unreadable
  | malformed _ => some (.rule .malformed)
  | refused e => e.cause.kind.map .rule
  | badExpectation e => parseFlaw e
  | unmet _ _ => some .unmet

/-- The flaw of a failing script, if there is a name for it. -/
def Failure.flaw : Failure → Option Flaw
  | step _ _ cause => cause.flaw
  | badGoal e => parseFlaw e
  | empty e => e.cause.kind.map .rule
  | unproved _ _ => some .unmet

variable {k : Flaw}

theorem includes_malformedLayers :
    malformedLayers.includes k = true ↔ some (.rule .malformed) = some k := by
  simp [malformedLayers, Layers.includes]

theorem includes_parseLayers (e : ParseError) :
    (parseLayers e).includes k = true ↔ parseFlaw e = some k := by
  cases e with
  | unreadable e => simp [parseLayers, parseFlaw, Layers.includes]
  | malformed m map => exact includes_malformedLayers

theorem includes_refusalLayers (e : Typographical.Failure) :
    (refusalLayers e).includes k = true ↔ e.cause.kind.map Flaw.rule = some k := by
  rw [refusalLayers]
  cases e.cause.kind with
  | none => simp [Layers.includes]
  | some kind => simp [Layers.includes]

theorem StepFailure.includes_layers (e : StepFailure) :
    e.layers.includes k = true ↔ e.flaw = some k := by
  cases e with
  | unknownRule name => simp [layers, flaw, Layers.includes]
  | arguments e => simp [layers, flaw, Layers.includes]
  | unreadable e => simp [layers, flaw, Layers.includes]
  | malformed m => exact includes_malformedLayers
  | invalidVariable e => simp [layers, flaw, Layers.includes]
  | refused e => exact includes_refusalLayers e
  | badExpectation e => exact includes_parseLayers e
  | unmet derived expected => simp [layers, flaw, Layers.includes]

/-- The flaw of a failing script is the one that is found in its layers. -/
theorem Failure.includes_layers (e : Failure) :
    e.layers.includes k = true ↔ e.flaw = some k := by
  cases e with
  | step index rule cause => exact cause.includes_layers
  | badGoal e => exact includes_parseLayers e
  | empty e => exact includes_refusalLayers e
  | unproved proved expected => simp [layers, flaw, Layers.includes]

theorem Failure.flaw_unique {k' : Flaw} (e : Failure) (h : e.layers.includes k = true)
    (h' : e.layers.includes k' = true) : k = k' := by
  rw [includes_layers] at h h'
  exact Option.some.inj (h.symm.trans h')

def announcing (s : Script) (name : String) : Script := { s with flaw := name }

variable {s : Script} {axioms : List Formula} {name : String}

theorem check_announcing_nothing :
    ((s.announcing "").check axioms).2 = none ↔ (s.run axioms).2 = none := by
  change (s.announcing "").verify (s.run axioms).2 = none ↔ _
  have hflaw : (s.announcing "").flaw = "" := rfl
  simp only [verify, hflaw, if_true, Option.map_eq_none_iff]

/-- There is no objection to an announced flaw exactly if the script fails and the
flaw is found in the layers of its failure. -/
theorem check_announcing (h : name ≠ "") :
    ((s.announcing name).check axioms).2 = none ↔
      ∃ k e, Flaw.ofName? name = some k ∧ (s.run axioms).2 = some e ∧
        e.layers.includes k = true := by
  change (s.announcing name).verify (s.run axioms).2 = none ↔ _
  have hflaw : (s.announcing name).flaw = name := rfl
  simp only [verify, hflaw, if_neg h]
  cases Flaw.ofName? name with
  | none => simp
  | some k =>
    cases (s.run axioms).2 with
    | none => simp
    | some e => simp

/-- A given title, goal and list of steps may be announced with a flaw exactly if
the script fails and the flaw is found in the layers of its failure. So if there
is no objection to announcing nothing, there is one to announcing any flaw; and
names that can be announced without an objection are names of the same flaw. -/
theorem outcome_has_one_flaw (s : Script) (axioms : List Formula) :
    (∀ name, name ≠ "" → (((s.announcing name).check axioms).2 = none ↔
      ∃ k e, Flaw.ofName? name = some k ∧ (s.run axioms).2 = some e ∧
        e.layers.includes k = true)) ∧
    (((s.announcing "").check axioms).2 = none →
      ∀ name, name ≠ "" → ((s.announcing name).check axioms).2 ≠ none) ∧
    (∀ name name', name ≠ "" → name' ≠ "" →
      ((s.announcing name).check axioms).2 = none →
      ((s.announcing name').check axioms).2 = none →
      ∃ k, Flaw.ofName? name = some k ∧ Flaw.ofName? name' = some k) := by
  refine ⟨fun _ => check_announcing, ?_, ?_⟩
  · intro hnothing name hname hcheck
    obtain ⟨k, e, -, hrun, -⟩ := (check_announcing hname).mp hcheck
    rw [check_announcing_nothing.mp hnothing] at hrun
    cases hrun
  · intro name name' hname hname' hcheck hcheck'
    obtain ⟨k, e, hk, hrun, he⟩ := (check_announcing hname).mp hcheck
    obtain ⟨k', e', hk', hrun', he'⟩ := (check_announcing hname').mp hcheck'
    have hsame : e = e' := Option.some.inj (hrun.symm.trans hrun')
    have hone : k = k' := e.flaw_unique he (hsame ▸ he')
    exact ⟨k, hk, hone ▸ hk'⟩

/-- A formula that is no axiom may be announced in small and in capital letters; a
script that succeeds may not be announced to fail in this way. -/
theorem outcome_has_one_flaw_axiom :
    let s : Script := { steps := [{ rule := "axiom", formula := "0=S0" }] }
    let t : Script := { steps := [{ rule := "supposition", formula := "0=S0" }] }
    (((s.announcing "axiom").check Axioms.peano).2 = none ∧
      ((s.announcing "AXIOM").check Axioms.peano).2 = none ∧
      ∃ k, Flaw.ofName? "axiom" = some k ∧ Flaw.ofName? "AXIOM" = some k) ∧
    ((t.announcing "").check Axioms.peano).2 = none ∧
      ((t.announcing "axiom").check Axioms.peano).2 ≠ none := by
  intro s t
  have hsmall : ((s.announcing "axiom").check Axioms.peano).2 = none := by
    subst s
    decide +kernel
  have hcapital : ((s.announcing "AXIOM").check Axioms.peano).2 = none := by
    subst s
    decide +kernel
  have hnothing : ((t.announcing "").check Axioms.peano).2 = none := by
    subst t
    decide +kernel
  obtain ⟨-, -, hsame⟩ := outcome_has_one_flaw s Axioms.peano
  obtain ⟨-, hfails, -⟩ := outcome_has_one_flaw t Axioms.peano
  exact ⟨⟨hsmall, hcapital, hsame _ _ (by decide) (by decide) hsmall hcapital⟩, hnothing,
    hfails hnothing _ (by decide)⟩

end Script

end Typographical
