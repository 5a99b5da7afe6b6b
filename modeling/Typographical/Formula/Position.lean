import Typographical.Formula

/-!
# Positions in formulas

A position is the way down from a formula to one of its subformulas. Equal
subformulas at different positions are different occurrences.
-/

namespace Typographical

/-- A step down: into the body of a negation or quantifier, or to a side of a
binary formula. -/
inductive Branch where
  | body
  | left
  | right
  deriving DecidableEq

abbrev Position := List Branch

namespace Formula

def at? : Formula → Position → Option Formula
  | f, [] => some f
  | neg f, .body :: p => f.at? p
  | quantified _ _ f, .body :: p => f.at? p
  | binary _ l _, .left :: p => l.at? p
  | binary _ _ r, .right :: p => r.at? p
  | _, _ :: _ => none

/-- All positions, a formula before its subformulas and left before right. -/
def positions : Formula → List Position
  | equality _ _ => [[]]
  | neg f => [] :: f.positions.map (.body :: ·)
  | quantified _ _ f => [] :: f.positions.map (.body :: ·)
  | binary _ l r => [] :: (l.positions.map (.left :: ·) ++ r.positions.map (.right :: ·))

end Formula

end Typographical
