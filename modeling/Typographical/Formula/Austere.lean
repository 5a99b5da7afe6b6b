import Typographical.Formula.Variables

/-!
# Austere form and closure

In austere form the quantified variables are, from left to right, the first
names of the sequence `a, a', a'', ...` that are not free in the formula.
Formulas that differ only in the naming of bound variables have the same
austere form. The closure of a formula quantifies its free variables
universally, the first to occur outermost.
-/

namespace Typographical

/-- The first variable of the austere sequence outside a set. Among as many
names as the set has members, and one more, there is one. -/
def fresh (used : SortedSet Variable) : Variable :=
  .austere (((List.range (used.size + 1)).find?
    (fun n => !used.contains (.austere n))).getD used.size)

namespace Formula

/-- Rename quantified variables to fresh ones, where `used` holds the names
already taken and `name` gives the new names of the variables bound above. The
names taken afterwards are returned as well. -/
def renameBound :
    Formula → SortedSet Variable → (Variable → Variable) → Formula × SortedSet Variable
  | equality l r, used, name => (equality (l.rename name) (r.rename name), used)
  | neg f, used, name =>
    let (g, used) := f.renameBound used name
    (neg g, used)
  | binary op l r, used, name =>
    let (l', used) := l.renameBound used name
    let (r', used) := r.renameBound used name
    (binary op l' r', used)
  | quantified q v f, used, name =>
    let w := fresh used
    let (g, used) := f.renameBound (used.insert w) (fun u => if u = v then w else name u)
    (quantified q w g, used)

def austere (f : Formula) : Formula := (f.renameBound f.freeVars id).1

/-- Whether two formulas are equal up to the names of bound variables. -/
def austereEquals (f g : Formula) : Bool := f.austere = g.austere

def closure (f : Formula) : Formula := f.freeVarsInOrder.foldr forAll f

def stripForAll : Formula → Formula
  | quantified .forAll _ f => f.stripForAll
  | f => f

end Formula

end Typographical
