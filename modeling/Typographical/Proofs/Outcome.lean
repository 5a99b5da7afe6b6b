import Mathlib.Logic.Basic

/-!
# Outcomes

A computation that may fail gives a result exactly if each of its parts does, and
fails exactly if one of them does. With this, a run is taken apart one step at a
time.
-/

namespace Typographical

universe u v w

variable {ε : Type u} {ε' : Type w} {α β : Type v}

theorem bind_eq_ok_iff {x : Except ε α} {f : α → Except ε β} {b : β} :
    x >>= f = .ok b ↔ ∃ a, x = .ok a ∧ f a = .ok b := by
  cases x with
  | error e => simp [bind, Except.bind]
  | ok a => simp [bind, Except.bind]

theorem map_eq_ok_iff {x : Except ε α} {f : α → β} {b : β} :
    x.map f = .ok b ↔ ∃ a, x = .ok a ∧ f a = b := by
  cases x with
  | error e => simp [Except.map]
  | ok a => simp [Except.map]

theorem mapError_eq_ok_iff {x : Except ε α} {f : ε → ε'} {a : α} :
    x.mapError f = .ok a ↔ x = .ok a := by
  cases x with
  | error e =>
    constructor
    · intro h
      cases h
    · intro h
      cases h
  | ok b =>
    constructor
    · intro h
      cases h
      rfl
    · intro h
      cases h
      rfl

theorem bind_eq_error_iff {x : Except ε α} {f : α → Except ε β} {e : ε} :
    x >>= f = .error e ↔ x = .error e ∨ ∃ a, x = .ok a ∧ f a = .error e := by
  cases x with
  | error e => simp [bind, Except.bind]
  | ok a => simp [bind, Except.bind]

theorem map_eq_error_iff {x : Except ε α} {f : α → β} {e : ε} :
    x.map f = .error e ↔ x = .error e := by
  cases x with
  | error e => simp [Except.map]
  | ok a => simp [Except.map]

theorem mapError_eq_error_iff {x : Except ε α} {f : ε → ε'} {e' : ε'} :
    x.mapError f = .error e' ↔ ∃ e, x = .error e ∧ f e = e' := by
  cases x with
  | error e =>
    constructor
    · intro h
      cases h
      exact ⟨e, rfl, rfl⟩
    · rintro ⟨_, ⟨⟩, rfl⟩
      rfl
  | ok a =>
    constructor
    · intro h
      cases h
    · rintro ⟨_, ⟨⟩, _⟩

/-- What each step keeps, a whole run keeps; and if each step succeeds, so does the
run. -/
theorem exists_foldlM_eq_ok {α β ε : Type} {P : β → Prop} {f : β → α → Except ε β}
    (step : ∀ b, P b → ∀ a, ∃ b', f b a = .ok b' ∧ P b') (xs : List α) {b : β} (h : P b) :
    ∃ b', xs.foldlM f b = .ok b' ∧ P b' := by
  induction xs generalizing b with
  | nil => exact ⟨b, rfl, h⟩
  | cons a xs ih =>
    obtain ⟨b', hstep, hkept⟩ := step b h a
    obtain ⟨b'', hrun, hkept'⟩ := ih hkept
    refine ⟨b'', ?_, hkept'⟩
    rw [List.foldlM_cons, hstep]
    exact hrun

end Typographical
