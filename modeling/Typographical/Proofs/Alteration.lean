import Typographical.Formula.Alteration
import Typographical.Proofs.Outcome

/-!
# One changed subformula

Whatever number is asked for, an alteration that succeeds changes one
subformula and copies everything around it. Facts that do not depend on which
subformula it was are proved from this alone.
-/

namespace Typographical

namespace Formula

/-- Two formulas that differ in one subformula, which `change` turns into what
stands there instead. -/
inductive Altered (change : Formula → Option Formula) : Formula → Formula → Prop
  | here {f g : Formula} (h : change f = some g) : Altered change f g
  | neg {f g : Formula} (h : Altered change f g) : Altered change (.neg f) (.neg g)
  | left {op : Connective} {f g r : Formula} (h : Altered change f g) :
      Altered change (.binary op f r) (.binary op g r)
  | right {op : Connective} {l f g : Formula} (h : Altered change f g) :
      Altered change (.binary op l f) (.binary op l g)
  | body {q : Quantifier} {v : Variable} {f g : Formula} (h : Altered change f g) :
      Altered change (.quantified q v f) (.quantified q v g)

variable {change : Formula → Option Formula} {g : Formula} {n : Nat}

theorem altered_of_alterFrom {f : Formula} (h : f.alterFrom change n = .ok g) :
    Altered change f g := by
  induction f generalizing n g with
  | equality l r =>
    simp only [alterFrom] at h
    split at h
    · next hc => cases h; exact .here hc
    · cases h
    · cases h
  | neg f ih =>
    simp only [alterFrom] at h
    split at h
    · next hc => cases h; exact .here hc
    all_goals
      obtain ⟨g, hg, rfl⟩ := map_eq_ok_iff.mp h
      exact .neg (ih hg)
  | quantified q v f ih =>
    simp only [alterFrom] at h
    split at h
    · next hc => cases h; exact .here hc
    all_goals
      obtain ⟨g, hg, rfl⟩ := map_eq_ok_iff.mp h
      exact .body (ih hg)
  | binary op l r ihl ihr =>
    simp only [alterFrom] at h
    split at h
    · next hc => cases h; exact .here hc
    all_goals
      split at h
      · next l' hl => cases h; exact .left (ihl hl)
      · obtain ⟨r', hr, rfl⟩ := map_eq_ok_iff.mp h
        exact .right (ihr hr)

theorem altered_of_alterNth {f : Formula} (h : f.alterNth? change n = some g) :
    Altered change f g := by
  rw [alterNth?] at h
  split at h
  · next hg =>
    cases h
    exact altered_of_alterFrom hg
  · cases h

end Formula

end Typographical
