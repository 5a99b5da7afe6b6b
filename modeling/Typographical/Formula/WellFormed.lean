import Typographical.Formula.Position
import Typographical.Formula.Variables

/-!
# Well-quantified formulas

A formula is well quantified if no quantifier stands below another one of the
same variable, and if no variable is free on one side of a connective and bound
on the other. The check computes free and bound variables on the way up and
reports the first violation it meets, going through the left side of a
connective before the right one and through both before the connective itself.
-/

namespace Typographical

inductive Violation where
  | requantified
  | crossed (op : Connective)
  deriving DecidableEq

/-- A violation, the subformula at which it was found with its position, and
the variable responsible. -/
structure Malformation where
  position : Position
  formula : Formula
  culprit : Variable
  violation : Violation
  deriving DecidableEq

namespace Malformation

def reason (m : Malformation) : String :=
  match m.violation with
  | .requantified => "variable " ++ m.culprit.text ++ " is already quantified"
  | .crossed op =>
    "variable " ++ m.culprit.text ++ " is free on one side of " ++
      String.singleton op.symbol ++ " but bound on the other"

def message (m : Malformation) : String :=
  "malformed formula " ++ m.formula.text ++ ": " ++ m.reason

/-- The same malformation seen from one step further up. -/
def below (b : Branch) (m : Malformation) : Malformation :=
  { m with position := b :: m.position }

end Malformation

namespace Formula

/-- The free and the bound variables of a formula that is well quantified below
quantifiers of the variables in `path`. -/
def wellFormedBelow :
    Formula → SortedSet Variable → Except Malformation (SortedSet Variable × SortedSet Variable)
  | equality l r, _ => .ok (l.vars.union r.vars, ∅)
  | neg f, path => (f.wellFormedBelow path).mapError (.below .body)
  | binary op l r, path => do
    let (lfree, lbound) ← (l.wellFormedBelow path).mapError (.below .left)
    let (rfree, rbound) ← (r.wellFormedBelow path).mapError (.below .right)
    match (lfree.inter rbound).toList, (rfree.inter lbound).toList with
    | v :: _, _ => .error ⟨[], binary op l r, v, .crossed op⟩
    | [], v :: _ => .error ⟨[], binary op l r, v, .crossed op⟩
    | [], [] => .ok (lfree.union rfree, lbound.union rbound)
  | quantified q v f, path => do
    if path.contains v then
      .error ⟨[], quantified q v f, v, .requantified⟩
    else
      let (free, bound) ← (f.wellFormedBelow (path.insert v)).mapError (.below .body)
      .ok (free.erase v, bound.insert v)

def checkWellFormed (f : Formula) : Except Malformation Unit :=
  (f.wellFormedBelow ∅).map (fun _ => ())

end Formula

end Typographical
