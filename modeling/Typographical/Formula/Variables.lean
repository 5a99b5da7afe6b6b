import Typographical.Formula

/-!
# Variables of formulas

A variable occurs free where no enclosing quantifier binds it. Free occurrences
are collected in textual order with the set of variables bound on the way down;
sets and orders of free variables are read off that list.
-/

namespace Typographical

/-- Keep the first of equal elements. -/
def firstOccurrences {α : Type} [DecidableEq α] : List α → List α
  | [] => []
  | a :: rest => a :: (firstOccurrences rest).filter (· ≠ a)

namespace Formula

/-- The free occurrences of variables in textual order, where the variables in
`bound` count as bound. -/
def freeOccurrences : Formula → SortedSet Variable → List Variable
  | equality l r, bound =>
    (l.occurrences ++ r.occurrences).filter (fun v => !bound.contains v)
  | neg f, bound => f.freeOccurrences bound
  | binary _ l r, bound => l.freeOccurrences bound ++ r.freeOccurrences bound
  | quantified _ v f, bound =>
    if bound.contains v then f.freeOccurrences bound else f.freeOccurrences (bound.insert v)

/-- A variable that counts as bound already may be added once more. -/
theorem freeOccurrences_quantified (q : Quantifier) (v : Variable) (f : Formula)
    (bound : SortedSet Variable) :
    (quantified q v f).freeOccurrences bound = f.freeOccurrences (bound.insert v) := by
  rw [freeOccurrences]
  split
  · next hv => rw [SortedSet.insert_of_contains hv]
  · rfl

/-- The variables of the quantifiers of a formula in textual order. -/
def quantifiedVars : Formula → List Variable
  | equality _ _ => []
  | neg f => f.quantifiedVars
  | binary _ l r => l.quantifiedVars ++ r.quantifiedVars
  | quantified _ v f => v :: f.quantifiedVars

def freeVars (f : Formula) : SortedSet Variable := .ofList (f.freeOccurrences ∅)

def boundVars (f : Formula) : SortedSet Variable := .ofList f.quantifiedVars

def allVars (f : Formula) : SortedSet Variable := f.freeVars.union f.boundVars

def isFree (v : Variable) (f : Formula) : Bool := f.freeVars.contains v

def freeVarsInOrder (f : Formula) : List Variable :=
  firstOccurrences (f.freeOccurrences ∅)

/-- Whether a variable occurs at all, be it only at a quantifier. -/
def containsVar (v : Variable) : Formula → Bool
  | equality l r => l.containsVar v || r.containsVar v
  | neg f => f.containsVar v
  | binary _ l r => l.containsVar v || r.containsVar v
  | quantified _ w f => w = v || f.containsVar v

end Formula

end Typographical
