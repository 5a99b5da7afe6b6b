import Typographical.Proofs.Scopes
import Typographical.Proofs.Soundness

/-!
# Moves are atomic

A move either succeeds as a whole or changes nothing. Where it is computed as a
function from deductions to deductions this goes without saying, so here it is
carried out in place as well: stack and log are changed one after the other, and
what was changed before a failure stays changed. The two ways agree on every
deduction that was reached by moves, because all that can fail is checked before
the first change.

The stack of scopes and the log are read without asking twice whether there is
anything to be read. That this is safe is the same fact seen from the other side:
no move fails because of a flaw in the deduction itself.
-/

namespace Typographical

/-- A result, or a failure that is due to the arguments of a rule. -/
def Explained {α : Type} : Except Cause α → Prop
  | .ok _ => True
  | .error c => c.kind ≠ none

section Explained

variable {α β : Type} {x : Except Cause α}

theorem Explained.bind {next : α → Except Cause β} (hx : Explained x)
    (hnext : ∀ a, Explained (next a)) : Explained (x >>= next) := by
  cases x with
  | error c => exact hx
  | ok a => exact hnext a

theorem Explained.map (hx : Explained x) (g : α → β) : Explained (x.map g) := by
  cases x with
  | error c => exact hx
  | ok a => trivial

theorem Cause.kind_eq_none_iff {c : Cause} :
    c.kind = none ↔ (∃ fault, c = .scopesFault fault) ∨ ∃ index, c = .lostStep index := by
  cases c <;> simp [kind]

end Explained

namespace Inference

/-- Whatever a rule finds wrong with its theorems and its other arguments has a
kind. -/
theorem explained_conclude {use : UInt64 → Except Cause Formula}
    {premise : Except Cause (Option Formula)} (husable : ∀ n, Explained (use n))
    (hpremise : Explained premise) (i : Inference) : Explained (i.conclude use premise) := by
  have alter : ∀ {n : UInt64} {change : Formula → Option Formula} {k : UInt64}
      {complaint : Formula → Cause}, (∀ f, (complaint f).kind ≠ none) →
      Explained (use n >>= fun f => alterOccurrence change k (complaint f) f) := by
    intro n change k complaint hkind
    refine (husable n).bind (fun f => ?_)
    unfold alterOccurrence
    split
    · trivial
    · exact hkind f
  have sides : ∀ {n : UInt64} {f : Formula}, Explained (sides n f) := by
    intro n f
    unfold sides
    split
    · trivial
    · rintro ⟨⟩
  cases i with
  | specification n v t =>
    refine (husable n).bind (fun f => ?_)
    unfold specify
    grind [Explained, Cause.kind]
  | generalization n v =>
    refine (husable n).bind (fun f => hpremise.bind (fun p => ?_))
    unfold generalize
    grind [Explained, Cause.kind]
  | existence n t v =>
    refine (husable n).bind (fun f => ?_)
    unfold exhibit
    grind [Explained, Cause.kind]
  | interchangeEA n v k => exact alter (fun f => by rintro ⟨⟩)
  | interchangeAE n v k => exact alter (fun f => by rintro ⟨⟩)
  | successor n => exact (husable n).bind (fun f => sides.map _)
  | predecessor n =>
    refine (husable n).bind (fun f => sides.bind (fun r => ?_))
    split
    · trivial
    · rintro ⟨⟩
  | symmetry n => exact (husable n).bind (fun f => sides.map _)
  | transitivity n m =>
    refine (husable n).bind (fun f => (husable m).bind (fun g => ?_))
    unfold chain
    grind [Explained, Cause.kind]
  | induction v base general =>
    refine (husable base).bind (fun f => (husable general).bind (fun g => ?_))
    unfold induct
    grind [Explained, Cause.kind]
  | joining n m => exact (husable n).bind (fun f => (husable m).bind (fun g => trivial))
  | separation n side =>
    refine (husable n).bind (fun f => ?_)
    unfold separate
    grind [Explained, Cause.kind]
  | detachment n m =>
    refine (husable n).bind (fun f => (husable m).bind (fun g => ?_))
    unfold detach
    grind [Explained, Cause.kind]
  | contrapositive n =>
    refine (husable n).bind (fun f => ?_)
    unfold contrapose
    grind [Explained, Cause.kind]
  | deMorgan n =>
    refine (husable n).bind (fun f => ?_)
    unfold exchangeDeMorgan
    grind [Explained, Cause.kind]
  | switcheroo n =>
    refine (husable n).bind (fun f => ?_)
    unfold exchangeSwitcheroo
    grind [Explained, Cause.kind]
  | addDoubleTilde n k => exact alter (fun f => by rintro ⟨⟩)
  | removeDoubleTilde n k => exact alter (fun f => by rintro ⟨⟩)

end Inference

namespace Deduction

variable {d d' : Deduction} {f : Formula}

theorem explained_use (hc : d.Coherent) (n : UInt64) : Explained (d.use n) := by
  unfold use
  split
  · rintro ⟨⟩
  · split
    · trivial
    · rw [hc.openScope]
      dsimp only [bind, Except.bind]
      split
      · trivial
      · rintro ⟨⟩

theorem explained_admissible (f : Formula) : Explained (admissible f) := by
  unfold admissible
  cases f.checkWellFormed with
  | error m => rintro ⟨⟩
  | ok u => trivial

theorem explained_derive (hc : d.Coherent) (f : Formula) (j : Justification) :
    Explained (d.derive f j) := by
  rw [derive_eq hc]
  exact (explained_admissible f).map _

/-- A move reads stack and log only where there is something to be read. -/
theorem kind_ne_none (hc : d.Coherent) {m : Move} {e : Failure} (h : d.apply m = .error e) :
    e.cause.kind ≠ none := by
  have tell : ∀ {r : Rule} {x : Except Cause (Formula × Deduction)}, Explained x →
      x.mapError (Failure.mk (.rule r)) = .error e → e.cause.kind ≠ none := by
    intro r x hx he
    cases x with
    | ok a => cases he
    | error c =>
      cases he
      exact hx
  refine tell (r := m.rule) ?_ h
  cases m with
  | postulate f =>
    dsimp only [postulate]
    split
    · rintro ⟨⟩
    · exact explained_derive hc f _
  | suppose f =>
    dsimp only
    rcases hc with hc | ⟨origin, ho⟩
    · rw [hc.suppose_eq]
      exact (explained_admissible f).map _
    · obtain ⟨p, hp⟩ := ho.exists_premise
      rw [ho.suppose_eq hp]
      rintro ⟨⟩
  | discharge =>
    dsimp only
    rcases hc with hc | ⟨origin, ho⟩
    · rw [hc.discharge_eq]
      rintro ⟨⟩
    · obtain ⟨p, hp⟩ := ho.exists_premise
      obtain ⟨q, hq⟩ := ho.exists_last
      rw [ho.discharge_eq hp hq]
      exact (explained_admissible _).map _
  | infer i =>
    obtain ⟨premise, hpremise⟩ := hc.exists_openPremise
    have hconclude : Explained (i.conclude d.use d.openPremise) :=
      i.explained_conclude (explained_use hc) (by rw [hpremise]; trivial)
    exact hconclude.bind (fun f => explained_derive hc f _)

end Deduction

/-- A computation that works on a deduction in place. What it has changed before
it fails stays changed. -/
abbrev Revision := ExceptT Cause (StateM Deduction)

namespace Revision

variable {α β : Type}

def outcome (r : Revision α) (d : Deduction) : Except Cause α × Deduction := r.run.run d

def inspect (question : Deduction → Except Cause α) : Revision α :=
  ExceptT.mk (fun d => (question d, d))

def change (next : Deduction → Except Cause Deduction) : Revision Unit :=
  ExceptT.mk (fun d =>
    match next d with
    | .ok d' => (.ok (), d')
    | .error c => (.error c, d))

theorem outcome_inspect (question : Deduction → Except Cause α) (next : α → Revision β)
    (d : Deduction) : (inspect question >>= next).outcome d =
      match question d with
      | .ok a => (next a).outcome d
      | .error c => (.error c, d) := by
  change (ExceptT.bindCont next (question d)).run d = _
  cases question d <;> rfl

theorem outcome_change (advance : Deduction → Except Cause Deduction) (next : Unit → Revision β)
    (d : Deduction) : (change advance >>= next).outcome d =
      match advance d with
      | .ok d' => (next ()).outcome d'
      | .error c => (.error c, d) := by
  change (match (match advance d with
    | .ok d' => (Except.ok (), d')
    | .error c => (.error c, d)) with
    | (r, s) => (ExceptT.bindCont next r).run s) = _
  cases advance d <;> rfl

end Revision

open Revision

def Deduction.deriveInPlace (f : Formula) (j : Justification) : Revision Formula := do
  inspect (fun _ => admissible f)
  change (·.append f j)
  return f

/-- A move in place. The stack is changed before the log is. -/
def Move.carryOut : Move → Revision Formula
  | postulate f => do
    match ← inspect (fun d => .ok (Axioms.find? d.axioms f)) with
    | none => throw (.unfounded f)
    | some index => Deduction.deriveInPlace f (.postulated index)
  | suppose premise => do
    if ← inspect (fun d => .ok d.scopes.isFull) then
      let start ← inspect (fun d => (d.scopes.peek 0).mapError .scopesFault)
      let opened ← inspect (·.formulaAt start)
      throw (.alreadyOpen start opened premise)
    else
      inspect (fun _ => Deduction.admissible premise)
      change (fun d => ((d.scopes.push d.size).mapError .scopesFault).map ({ d with scopes := · }))
      change (·.append premise .supposed)
      return premise
  | discharge => do
    if ← inspect (fun d => .ok d.scopes.isEmpty) then
      throw .noSupposition
    else
      let start ← inspect (fun d => (d.scopes.peek 0).mapError .scopesFault)
      let premise ← inspect (·.formulaAt start)
      let last ← inspect (fun d => d.formulaAt (d.size - 1))
      let f := Formula.implies premise last
      inspect (fun _ => Deduction.admissible f)
      change (fun d => (d.scopes.pop.mapError .scopesFault).map ({ d with scopes := ·.2 }))
      change (fun d => d.append f (.discharged start (d.size - 1)))
      return f
  | infer i => do
    let f ← inspect (fun d => i.conclude d.use d.openPremise)
    Deduction.deriveInPlace f (.inferred i)

namespace Deduction

variable {d d' : Deduction} {f : Formula}

/-- All or nothing: the theorem and the deduction with it, or the cause and the
deduction as it was. -/
def settled (d : Deduction) : Except Cause (Formula × Deduction) → Except Cause Formula × Deduction
  | .ok (f, d') => (.ok f, d')
  | .error c => (.error c, d)

theorem deriveInPlace_eq (hc : d.Coherent) (f : Formula) (j : Justification) :
    (deriveInPlace f j).outcome d = d.settled (d.derive f j) := by
  rw [derive_eq hc, deriveInPlace, outcome_inspect]
  cases admissible f with
  | error c => rfl
  | ok u =>
    simp only [outcome_change, append_eq hc.openScope]
    rfl

theorem OpenAt.peek_scopes {origin : Nat} (h : d.OpenAt origin) :
    d.scopes.peek 0 = .ok origin := by
  rw [h.scopes, Stack.peek_singleton]

theorem Closed.carryOut_suppose (h : d.Closed) (premise : Formula) :
    (Move.suppose premise).carryOut.outcome d = d.settled (d.suppose premise) := by
  have hscopes : d.scopes = .bounded maxDepth := h
  have hfull : d.scopes.isFull = false := by
    rw [hscopes]
    rfl
  have hpush : d.scopes.push d.size = .ok ⟨[d.size], maxDepth⟩ := by
    rw [hscopes]
    rfl
  have happend : ({ d with scopes := ⟨[d.size], maxDepth⟩ } : Deduction).append premise .supposed
      = .ok (d.extended ⟨[d.size], maxDepth⟩ premise .supposed) :=
    append_eq (openScope_of_single rfl)
  rw [h.suppose_eq]
  simp only [Move.carryOut, outcome_inspect, hfull, Bool.false_eq_true, if_false]
  cases admissible premise with
  | error c => rfl
  | ok u =>
    simp only [outcome_change, hpush, Except.mapError, Except.map, happend]
    rfl

theorem OpenAt.carryOut_suppose {origin : Nat} (h : d.OpenAt origin) (premise : Formula) :
    (Move.suppose premise).carryOut.outcome d = d.settled (d.suppose premise) := by
  obtain ⟨p, hp⟩ := h.exists_premise
  have hfull : d.scopes.isFull = true := by
    rw [h.scopes]
    rfl
  have hformula : d.formulaAt origin = .ok p.formula := formulaAt_eq_ok_iff.mpr ⟨p, hp, rfl⟩
  rw [h.suppose_eq hp]
  simp only [Move.carryOut, outcome_inspect, hfull, if_true, h.peek_scopes,
    Except.mapError, hformula]
  rfl

theorem Closed.carryOut_discharge (h : d.Closed) :
    Move.discharge.carryOut.outcome d = d.settled d.discharge := by
  have hempty : d.scopes.isEmpty = true := by
    rw [show d.scopes = .bounded maxDepth from h]
    rfl
  rw [h.discharge_eq]
  simp only [Move.carryOut, outcome_inspect, hempty, if_true]
  rfl

theorem OpenAt.carryOut_discharge {origin : Nat} (h : d.OpenAt origin) :
    Move.discharge.carryOut.outcome d = d.settled d.discharge := by
  obtain ⟨p, hp⟩ := h.exists_premise
  obtain ⟨q, hq⟩ := h.exists_last
  have hempty : d.scopes.isEmpty = false := by
    rw [h.scopes]
    rfl
  have hpop : d.scopes.pop = .ok (origin, .bounded maxDepth) := by
    rw [h.scopes]
    rfl
  have hfirst : d.formulaAt origin = .ok p.formula := formulaAt_eq_ok_iff.mpr ⟨p, hp, rfl⟩
  have hlast : d.formulaAt (d.size - 1) = .ok q.formula := formulaAt_eq_ok_iff.mpr ⟨q, hq, rfl⟩
  have hsize : ({ d with scopes := .bounded maxDepth } : Deduction).size = d.size := rfl
  have happend : ({ d with scopes := .bounded maxDepth } : Deduction).append
        (.implies p.formula q.formula) (.discharged origin (d.size - 1))
      = .ok (d.extended (.bounded maxDepth) (.implies p.formula q.formula)
          (.discharged origin (d.size - 1))) :=
    append_eq (openScope_of_empty rfl)
  rw [h.discharge_eq hp hq]
  simp only [Move.carryOut, outcome_inspect, hempty, Bool.false_eq_true, if_false,
    h.peek_scopes, Except.mapError, hfirst, hlast]
  cases admissible (.implies p.formula q.formula) with
  | error c => rfl
  | ok u =>
    simp only [outcome_change, hpop, Except.map, hsize, happend]
    rfl

/-- Nothing is left behind by a move that fails halfway. -/
theorem carryOut_eq (hc : d.Coherent) (m : Move) :
    m.carryOut.outcome d =
      match d.apply m with
      | .ok (f, d') => (.ok f, d')
      | .error e => (.error e.cause, d) := by
  have forget : ∀ {r : Rule} {x : Except Cause (Formula × Deduction)},
      d.settled x =
        match x.mapError (Failure.mk (.rule r)) with
        | .ok (f, d') => (.ok f, d')
        | .error e => (.error e.cause, d) := by
    intro r x
    cases x <;> rfl
  refine Eq.trans ?_ (forget (r := m.rule))
  cases m with
  | postulate f =>
    simp only [Move.carryOut, outcome_inspect, postulate]
    cases Axioms.find? d.axioms f with
    | none => rfl
    | some index => exact deriveInPlace_eq hc f _
  | suppose f =>
    rcases hc with hc | ⟨origin, ho⟩
    · exact hc.carryOut_suppose f
    · exact ho.carryOut_suppose f
  | discharge =>
    rcases hc with hc | ⟨origin, ho⟩
    · exact hc.carryOut_discharge
    · exact ho.carryOut_discharge
  | infer i =>
    simp only [Move.carryOut, outcome_inspect, infer]
    cases i.conclude d.use d.openPremise with
    | error c => rfl
    | ok f => exact deriveInPlace_eq hc f _

/-- Only a supposition pushes onto the stack of scopes, namely the number of its
premise, and only an implication pops from it. -/
def ScopesAfter (d : Deduction) (m : Move) (scopes : Stack Nat) : Prop :=
  match m with
  | .suppose _ => d.scopes.push d.size = .ok scopes
  | .discharge => ∃ top, d.scopes.pop = .ok (top, scopes)
  | .postulate _ | .infer _ => scopes = d.scopes

theorem Granted.scopesAfter {m : Move} (hm : d.Granted m f d') : d.ScopesAfter m d'.scopes := by
  cases hm with
  | postulated found wellFormed => rfl
  | supposed closed wellFormed =>
    rw [ScopesAfter, show d.scopes = .bounded maxDepth from closed]
    rfl
  | @discharged origin _ _ opened first final wellFormed =>
    refine ⟨origin, ?_⟩
    rw [opened.scopes]
    rfl
  | inferred follows wellFormed => rfl

/-- Every move, whatever its arguments and whenever it is made, either fails for
a reason that its arguments give and leaves the deduction as it is, or appends
exactly one well-quantified theorem and changes the scopes as its rule says. It
makes no difference whether stack and log are replaced together or changed in
place one after the other. -/
theorem move_atomic (title : String) (axioms : List Formula) (moves : List Move) (m : Move) :
    let d := (start title axioms).run moves
    match d.apply m with
    | .error e =>
      (∀ fault, e.cause ≠ .scopesFault fault) ∧ (∀ index, e.cause ≠ .lostStep index) ∧
      m.carryOut.outcome d = (.error e.cause, d) ∧ d.advance m = d
    | .ok (f, d') =>
      f.checkWellFormed = .ok () ∧ m.carryOut.outcome d = (.ok f, d') ∧ d.advance m = d' ∧
      d'.title = d.title ∧ d'.axioms = d.axioms ∧
      (∃ s, s.formula = f ∧ d'.steps = d.steps ++ [s]) ∧ d.ScopesAfter m d'.scopes := by
  intro d
  have hc : d.Coherent := (scoped_run title axioms moves).1
  have hplace := carryOut_eq hc m
  split
  · next e he =>
    rw [he] at hplace
    have hkind := kind_ne_none hc he
    rw [Ne, Cause.kind_eq_none_iff, not_or] at hkind
    refine ⟨fun fault hf => hkind.1 ⟨fault, hf⟩, fun index hi => hkind.2 ⟨index, hi⟩, hplace, ?_⟩
    rw [advance, he]
  · next f d' hok =>
    rw [hok] at hplace
    have hm := (apply_eq_ok_iff hc).mp hok
    obtain ⟨scopes, j, rfl⟩ := hm.exists_extended
    refine ⟨hm.wellFormed, hplace, ?_, rfl, rfl, ⟨_, rfl, rfl⟩, hm.scopesAfter⟩
    rw [advance, hok]

end Deduction

end Typographical
