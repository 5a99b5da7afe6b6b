import Mathlib.Tactic.Common
import Typographical.Deduction
import Typographical.Proofs.Outcome

/-!
# What a move does

In a deduction that grew by moves from an empty one, either no supposition is
open, or one is and every theorem from its premise on stands under it. As long
as this is so the stack of scopes gives no trouble, and every move that succeeds
is of one of four kinds, which are listed with all they require and all they
change. Whatever is to be shown of every run needs to be shown of these four
only.
-/

namespace Typographical

namespace Stack

universe u

variable {α : Type u}

theorem peek_singleton (a : α) (limit : UInt64) : peek ⟨[a], limit⟩ 0 = .ok a := by
  have hp : positionOf ⟨[a], limit⟩ 0 = 0 := by
    change Int64.ofNat 1 - UInt64.toInt64 0 - 1 = 0
    decide
  rw [peek, hp]
  rfl

end Stack

namespace Deduction

def Closed (d : Deduction) : Prop := d.scopes = .bounded maxDepth

/-- A supposition is open whose premise is the theorem with number `start`, and
all theorems from there on stand under it. -/
structure OpenAt (d : Deduction) (start : Nat) : Prop where
  scopes : d.scopes = ⟨[start], maxDepth⟩
  inside : start < d.size
  block : ∀ k, start ≤ k → ∀ s, d.steps[k]? = some s → s.depth = 1 ∧ s.scopeStart = start

/-- Stack and log fit together. -/
def Coherent (d : Deduction) : Prop := d.Closed ∨ ∃ start, d.OpenAt start

/-- A deduction with one more theorem, which stands under the suppositions in
`scopes`. -/
def extended (d : Deduction) (scopes : Stack Nat) (f : Formula) (j : Justification) :
    Deduction :=
  { d with
    steps := d.steps ++ [⟨f, j, scopes.size, scopes.items.headD 0⟩]
    scopes := scopes }

variable {d d' : Deduction} {f : Formula} {origin : Nat}

theorem openScope_of_empty (h : d.scopes = .bounded maxDepth) : d.openScope = .ok none := by
  rw [openScope, h]
  rfl

theorem openScope_of_single (h : d.scopes = ⟨[origin], maxDepth⟩) :
    d.openScope = .ok (some origin) := by
  rw [openScope, h, Stack.peek_singleton]
  rfl

theorem Coherent.openScope (h : d.Coherent) : d.openScope = .ok d.scopes.items.head? := by
  rcases h with h | ⟨start, h⟩
  · rw [openScope_of_empty h, h]
    rfl
  · rw [openScope_of_single h.scopes, h.scopes]
    rfl

theorem append_eq {j : Justification} (h : d.openScope = .ok d.scopes.items.head?) :
    d.append f j = .ok (d.extended d.scopes f j) := by
  rw [append, h]
  cases hi : d.scopes.items <;> simp [extended, bind, Except.bind, pure, Except.pure, depth, hi]

theorem admissible_eq_ok_iff : admissible f = .ok () ↔ f.checkWellFormed = .ok () :=
  mapError_eq_ok_iff

theorem derive_eq (h : d.Coherent) (f : Formula) (j : Justification) :
    d.derive f j = (admissible f).map (fun _ => (f, d.extended d.scopes f j)) := by
  rw [derive, append_eq h.openScope]
  cases admissible f <;> rfl

theorem admissible_map_eq_ok_iff {α : Type} {a b : α} :
    (admissible f).map (fun _ => a) = .ok b ↔ f.checkWellFormed = .ok () ∧ b = a := by
  rw [map_eq_ok_iff, ← admissible_eq_ok_iff]
  constructor
  · rintro ⟨⟨⟩, hf, hab⟩
    exact ⟨hf, hab.symm⟩
  · rintro ⟨hf, hab⟩
    exact ⟨(), hf, hab.symm⟩

theorem derive_eq_ok_iff {g : Formula} {j : Justification} (h : d.Coherent) :
    d.derive g j = .ok (f, d') ↔
      g.checkWellFormed = .ok () ∧ f = g ∧ d' = d.extended d.scopes g j := by
  rw [derive_eq h, admissible_map_eq_ok_iff, Prod.mk.injEq]

theorem formulaAt_eq_ok_iff {k : Nat} :
    d.formulaAt k = .ok f ↔ ∃ s, d.steps[k]? = some s ∧ s.formula = f := by
  rw [formulaAt]
  split
  · next s hs => simp [hs]
  · next hs => simp [hs]

theorem OpenAt.exists_premise (h : d.OpenAt origin) : ∃ p, d.steps[origin]? = some p :=
  ⟨_, List.getElem?_eq_getElem h.inside⟩

theorem OpenAt.exists_last (h : d.OpenAt origin) : ∃ q, d.steps[d.size - 1]? = some q := by
  have hpos : 0 < d.size := Nat.zero_lt_of_lt h.inside
  exact ⟨_, List.getElem?_eq_getElem (Nat.sub_lt hpos Nat.one_pos)⟩

theorem Closed.openPremise (h : d.Closed) : d.openPremise = .ok none := by
  rw [Deduction.openPremise, openScope_of_empty h]
  rfl

theorem OpenAt.openPremise (h : d.OpenAt origin) {p : Step} (hp : d.steps[origin]? = some p) :
    d.openPremise = .ok (some p.formula) := by
  rw [Deduction.openPremise, openScope_of_single h.scopes]
  simp [bind, Except.bind, pure, Except.pure, formulaAt, hp]

/-- A theorem may be used if it stands under no supposition, or under the one
that is open. -/
theorem use_eq_ok_iff {n : UInt64} (h : d.Coherent) :
    d.use n = .ok f ↔ ∃ s, d.steps[n.toNat]? = some s ∧ s.formula = f ∧
      (s.depth = 0 ∨ d.scopes.items.head? = some s.scopeStart) := by
  rw [use]
  split
  · next hs => simp [hs]
  · next s hs =>
    simp only [hs, Option.some.injEq, exists_eq_left']
    split
    · next hz => simp [hz]
    · next hz =>
      rw [h.openScope]
      simp only [bind, Except.bind, hz, false_or]
      split
      · next ho => simp [ho]
      · next ho => simp [ho]

/-- A move that succeeds, the theorem it gives and the deduction it leads to. -/
inductive Granted (d : Deduction) : Move → Formula → Deduction → Prop
  | postulated {f : Formula} {number : Nat} (found : Axioms.find? d.axioms f = some number)
      (wellFormed : f.checkWellFormed = .ok ()) :
      Granted d (.postulate f) f (d.extended d.scopes f (.postulated number))
  | supposed {f : Formula} (closed : d.Closed) (wellFormed : f.checkWellFormed = .ok ()) :
      Granted d (.suppose f) f (d.extended ⟨[d.size], maxDepth⟩ f .supposed)
  | discharged {start : Nat} {premise last : Step} (opened : d.OpenAt start)
      (first : d.steps[start]? = some premise) (final : d.steps[d.size - 1]? = some last)
      (wellFormed : (Formula.implies premise.formula last.formula).checkWellFormed = .ok ()) :
      Granted d .discharge (.implies premise.formula last.formula)
        (d.extended (.bounded maxDepth) (.implies premise.formula last.formula)
          (.discharged start (d.size - 1)))
  | inferred {i : Inference} {f : Formula}
      (follows : i.conclude d.use d.openPremise = .ok f)
      (wellFormed : f.checkWellFormed = .ok ()) :
      Granted d (.infer i) f (d.extended d.scopes f (.inferred i))

theorem Closed.suppose_eq (h : d.Closed) (f : Formula) : d.suppose f =
    (admissible f).map (fun _ => (f, d.extended ⟨[d.size], maxDepth⟩ f .supposed)) := by
  have hscopes : d.scopes = .bounded maxDepth := h
  have hpush : d.scopes.push d.size = .ok ⟨[d.size], maxDepth⟩ := by
    rw [hscopes]
    rfl
  have happend : ({ d with scopes := ⟨[d.size], maxDepth⟩ } : Deduction).append f .supposed
      = .ok (d.extended ⟨[d.size], maxDepth⟩ f .supposed) :=
    append_eq (openScope_of_single rfl)
  rw [suppose, if_neg (by rw [hscopes]; exact Bool.false_ne_true), hpush]
  cases admissible f with
  | error c => rfl
  | ok u => exact congrArg (· >>= fun d' => pure (f, d')) happend

theorem OpenAt.suppose_eq (h : d.OpenAt origin) {p : Step} (hp : d.steps[origin]? = some p)
    (f : Formula) : d.suppose f = .error (.alreadyOpen origin p.formula f) := by
  have hformula : d.formulaAt origin = .ok p.formula := formulaAt_eq_ok_iff.mpr ⟨p, hp, rfl⟩
  rw [suppose, if_pos (by rw [h.scopes]; rfl), h.scopes, Stack.peek_singleton]
  exact congrArg (· >>= fun g => .error (.alreadyOpen origin g f)) hformula

theorem Closed.discharge_eq (h : d.Closed) : d.discharge = .error .noSupposition := by
  have hscopes : d.scopes = .bounded maxDepth := h
  rw [discharge, if_pos (by rw [hscopes]; rfl)]

theorem OpenAt.discharge_eq (h : d.OpenAt origin) {p q : Step} (hp : d.steps[origin]? = some p)
    (hq : d.steps[d.size - 1]? = some q) : d.discharge =
      (admissible (.implies p.formula q.formula)).map (fun _ => (.implies p.formula q.formula,
        d.extended (.bounded maxDepth) (.implies p.formula q.formula)
          (.discharged origin (d.size - 1)))) := by
  have hfirst : d.formulaAt origin = .ok p.formula := formulaAt_eq_ok_iff.mpr ⟨p, hp, rfl⟩
  have hlast : d.formulaAt (d.size - 1) = .ok q.formula := formulaAt_eq_ok_iff.mpr ⟨q, hq, rfl⟩
  have hpop : d.scopes.pop = .ok (origin, .bounded maxDepth) := by
    rw [h.scopes]
    rfl
  have happend : ({ d with scopes := .bounded maxDepth } : Deduction).append
        (.implies p.formula q.formula) (.discharged origin (d.size - 1))
      = .ok (d.extended (.bounded maxDepth) (.implies p.formula q.formula)
          (.discharged origin (d.size - 1))) :=
    append_eq (openScope_of_empty rfl)
  rw [discharge, if_neg (by rw [h.scopes]; exact Bool.false_ne_true), hpop, h.scopes,
    Stack.peek_singleton]
  simp only [Except.mapError, bind, Except.bind, hfirst, hlast, happend]
  cases admissible (.implies p.formula q.formula) <;> rfl

theorem suppose_eq_ok_iff {premise : Formula} (h : d.Coherent) :
    d.suppose premise = .ok (f, d') ↔ d.Closed ∧ premise.checkWellFormed = .ok () ∧
      f = premise ∧ d' = d.extended ⟨[d.size], maxDepth⟩ premise .supposed := by
  rcases h with h | ⟨origin, h⟩
  · rw [h.suppose_eq, admissible_map_eq_ok_iff, Prod.mk.injEq]
    exact (and_iff_right h).symm
  · obtain ⟨p, hp⟩ := h.exists_premise
    rw [h.suppose_eq hp]
    constructor
    · intro he
      cases he
    · rintro ⟨hc, -⟩
      rw [Closed, h.scopes] at hc
      cases hc

/-- At most one supposition is open. -/
theorem OpenAt.unique {origin' : Nat} (h : d.OpenAt origin) (h' : d.OpenAt origin') :
    origin = origin' := by
  have hscopes := h'.scopes
  rw [h.scopes] at hscopes
  cases hscopes
  rfl

theorem discharge_eq_ok_iff (h : d.Coherent) :
    d.discharge = .ok (f, d') ↔ ∃ start premise last, d.OpenAt start ∧
      d.steps[start]? = some premise ∧ d.steps[d.size - 1]? = some last ∧
      f = .implies premise.formula last.formula ∧ f.checkWellFormed = .ok () ∧
      d' = d.extended (.bounded maxDepth) f (.discharged start (d.size - 1)) := by
  rcases h with h | ⟨origin, h⟩
  · rw [h.discharge_eq]
    constructor
    · intro he
      cases he
    · rintro ⟨start, -, -, hs, -⟩
      have hs := hs.scopes
      rw [h] at hs
      cases hs
  · obtain ⟨p, hp⟩ := h.exists_premise
    obtain ⟨q, hq⟩ := h.exists_last
    rw [h.discharge_eq hp hq, admissible_map_eq_ok_iff, Prod.mk.injEq]
    constructor
    · rintro ⟨hwf, rfl, rfl⟩
      exact ⟨origin, p, q, h, hp, hq, rfl, hwf, rfl⟩
    · rintro ⟨start, p', q', h', hp', hq', rfl, hwf, rfl⟩
      cases h.unique h'
      cases hp.symm.trans hp'
      cases hq.symm.trans hq'
      exact ⟨hwf, rfl, rfl⟩

theorem apply_eq_ok_iff {m : Move} (h : d.Coherent) :
    d.apply m = .ok (f, d') ↔ d.Granted m f d' := by
  rw [apply.eq_def, mapError_eq_ok_iff]
  cases m with
  | postulate g =>
    constructor
    · intro hok
      simp only [postulate] at hok
      split at hok
      · cases hok
      · next number hfound =>
        obtain ⟨hwf, rfl, rfl⟩ := (derive_eq_ok_iff h).mp hok
        exact .postulated hfound hwf
    · intro hm
      cases hm with
      | postulated found wellFormed =>
        simp only [postulate, found]
        exact (derive_eq_ok_iff h).mpr ⟨wellFormed, rfl, rfl⟩
  | suppose g =>
    simp only [suppose_eq_ok_iff h]
    constructor
    · rintro ⟨hc, hwf, rfl, rfl⟩
      exact .supposed hc hwf
    · intro hm
      cases hm with
      | supposed closed wellFormed => exact ⟨closed, wellFormed, rfl, rfl⟩
  | discharge =>
    simp only [discharge_eq_ok_iff h]
    constructor
    · rintro ⟨start, p, q, ho, hp, hq, rfl, hwf, rfl⟩
      exact .discharged ho hp hq hwf
    · intro hm
      cases hm with
      | discharged opened first final wellFormed =>
        exact ⟨_, _, _, opened, first, final, rfl, wellFormed, rfl⟩
  | infer i =>
    simp only [infer, bind_eq_ok_iff, derive_eq_ok_iff h]
    constructor
    · rintro ⟨g, hg, hwf, rfl, rfl⟩
      exact .inferred hg hwf
    · intro hm
      cases hm with
      | inferred follows wellFormed => exact ⟨f, follows, wellFormed, rfl, rfl⟩

theorem Granted.wellFormed {m : Move} (hm : d.Granted m f d') : f.checkWellFormed = .ok () := by
  cases hm with
  | postulated found wellFormed => exact wellFormed
  | supposed closed wellFormed => exact wellFormed
  | discharged opened first final wellFormed => exact wellFormed
  | inferred follows wellFormed => exact wellFormed

/-- Every move that succeeds adds the theorem that it gives, and nothing else. -/
theorem Granted.exists_extended {m : Move} (hm : d.Granted m f d') :
    ∃ scopes j, d' = d.extended scopes f j := by
  cases hm with
  | postulated found wellFormed => exact ⟨_, _, rfl⟩
  | supposed closed wellFormed => exact ⟨_, _, rfl⟩
  | discharged opened first final wellFormed => exact ⟨_, _, rfl⟩
  | inferred follows wellFormed => exact ⟨_, _, rfl⟩

section Extended

variable {scopes : Stack Nat} {j : Justification} {s : Step}

theorem mem_steps_extended : s ∈ (d.extended scopes f j).steps ↔
    s ∈ d.steps ∨ s = ⟨f, j, scopes.size, scopes.items.headD 0⟩ := by
  simp [extended]

theorem getElem?_steps_extended {k : Nat} : (d.extended scopes f j).steps[k]? = some s ↔
    d.steps[k]? = some s ∨ k = d.size ∧ s = ⟨f, j, scopes.size, scopes.items.headD 0⟩ := by
  simp only [extended, size]
  rcases Nat.lt_trichotomy k d.steps.length with hlt | rfl | hgt
  · rw [List.getElem?_append_left hlt]
    have : k ≠ d.steps.length := by omega
    tauto
  · rw [List.getElem?_concat_length, List.getElem?_eq_none (Nat.le_refl _)]
    simp [eq_comm]
  · rw [List.getElem?_eq_none (by simp; omega), List.getElem?_eq_none (by omega)]
    have : k ≠ d.steps.length := by omega
    simp [this]

theorem size_extended : (d.extended scopes f j).size = d.size + 1 := by
  simp [extended, size]

end Extended

theorem coherent_start (title : String) (axioms : List Formula) :
    (start title axioms).Coherent := Or.inl rfl

/-- A theorem added under the open supposition belongs to its block. -/
theorem OpenAt.extended (h : d.OpenAt origin) (f : Formula) (j : Justification) :
    (d.extended d.scopes f j).OpenAt origin := by
  have hinside := h.inside
  refine ⟨h.scopes, by rw [size_extended]; omega, ?_⟩
  intro k hk s hs
  rcases getElem?_steps_extended.mp hs with hs | ⟨-, rfl⟩
  · exact h.block k hk s hs
  · rw [h.scopes]
    exact ⟨rfl, rfl⟩

/-- A premise opens a block of its own. -/
theorem openAt_supposed (d : Deduction) (f : Formula) :
    (d.extended ⟨[d.size], maxDepth⟩ f .supposed).OpenAt d.size := by
  refine ⟨rfl, by rw [size_extended]; omega, ?_⟩
  intro k hk s hs
  rcases getElem?_steps_extended.mp hs with hs | ⟨-, rfl⟩
  · have hlt : k < d.size := (List.getElem?_eq_some_iff.mp hs).1
    omega
  · exact ⟨rfl, rfl⟩

theorem Coherent.extended (h : d.Coherent) (f : Formula) (j : Justification) :
    (d.extended d.scopes f j).Coherent := by
  rcases h with h | ⟨origin, h⟩
  · exact Or.inl h
  · exact Or.inr ⟨origin, h.extended f j⟩

/-- The theorem added last can be used, if it can be numbered. -/
theorem use_extended {scopes : Stack Nat} {j : Justification} {m : UInt64}
    (h : (d.extended scopes f j).Coherent) (hm : m.toNat = d.size) :
    (d.extended scopes f j).use m = .ok f := by
  refine (use_eq_ok_iff h).mpr ⟨⟨f, j, scopes.size, scopes.items.headD 0⟩, ?_, rfl, ?_⟩
  · rw [hm]
    exact getElem?_steps_extended.mpr (Or.inr ⟨rfl, rfl⟩)
  · change scopes.items.length = 0 ∨ scopes.items.head? = some (scopes.items.headD 0)
    cases scopes.items with
    | nil => exact Or.inl rfl
    | cons origin items => exact Or.inr rfl

/-- A theorem added under the suppositions that are open leaves their premise as
it is. -/
theorem openPremise_extended (h : d.Coherent) (f : Formula) (j : Justification) :
    (d.extended d.scopes f j).openPremise = d.openPremise := by
  rcases h with h | ⟨origin, h⟩
  · have hclosed : (d.extended d.scopes f j).Closed := h
    rw [hclosed.openPremise, h.openPremise]
  · obtain ⟨p, hp⟩ := h.exists_premise
    rw [(h.extended f j).openPremise (getElem?_steps_extended.mpr (Or.inl hp)), h.openPremise hp]

theorem Granted.coherent {m : Move} (h : d.Coherent) (hm : d.Granted m f d') :
    d'.Coherent := by
  cases hm with
  | postulated found wellFormed => exact h.extended _ _
  | supposed closed wellFormed => exact Or.inr ⟨d.size, d.openAt_supposed f⟩
  | discharged opened first final wellFormed => exact Or.inl rfl
  | inferred follows wellFormed => exact h.extended _ _

/-- What holds of an empty deduction and is kept by every move that succeeds
holds after every run. -/
theorem run_induction {P : Deduction → Prop} {title : String} {axioms : List Formula}
    (base : P (start title axioms))
    (step : ∀ d m f d', d.Coherent → P d → d.Granted m f d' → P d') (moves : List Move) :
    ((start title axioms).run moves).Coherent ∧ P ((start title axioms).run moves) := by
  have grow : ∀ d : Deduction, d.Coherent ∧ P d → (d.run moves).Coherent ∧ P (d.run moves) := by
    induction moves with
    | nil => exact fun _ h => h
    | cons m moves ih =>
      rintro d ⟨hc, hp⟩
      apply ih
      rw [advance]
      split
      · next f d' happly =>
        have hm := (apply_eq_ok_iff hc).mp happly
        exact ⟨hm.coherent hc, step d m f d' hc hp hm⟩
      · exact ⟨hc, hp⟩
  exact grow _ ⟨coherent_start title axioms, base⟩

end Deduction

end Typographical
