/-!
# Rules

The rules by which a deduction grows, with their names.
-/

namespace Typographical

inductive Rule where
  | addDoubleTilde
  | postulate
  | contrapositive
  | deMorgan
  | detachment
  | existence
  | generalization
  | implication
  | induction
  | interchangeAE
  | interchangeEA
  | joining
  | predecessor
  | removeDoubleTilde
  | separation
  | specification
  | successor
  | supposition
  | switcheroo
  | symmetry
  | transitivity
  deriving DecidableEq

namespace Rule

def name : Rule → String
  | addDoubleTilde => "add_double_tilde"
  | postulate => "axiom"
  | contrapositive => "contrapositive"
  | deMorgan => "de_morgan"
  | detachment => "detachment"
  | existence => "existence"
  | generalization => "generalization"
  | implication => "implication"
  | induction => "induction"
  | interchangeAE => "interchange_ae"
  | interchangeEA => "interchange_ea"
  | joining => "joining"
  | predecessor => "predecessor"
  | removeDoubleTilde => "remove_double_tilde"
  | separation => "separation"
  | specification => "specification"
  | successor => "successor"
  | supposition => "supposition"
  | switcheroo => "switcheroo"
  | symmetry => "symmetry"
  | transitivity => "transitivity"

/-- Every rule, in alphabetical order of the names. -/
def all : List Rule := [
  addDoubleTilde, postulate, contrapositive, deMorgan, detachment, existence,
  generalization, implication, induction, interchangeAE, interchangeEA, joining,
  predecessor, removeDoubleTilde, separation, specification, successor, supposition,
  switcheroo, symmetry, transitivity]

def ofName? (name : String) : Option Rule := all.find? (fun r => r.name = name)

end Rule

end Typographical
