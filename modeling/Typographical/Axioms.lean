import Typographical.Formula.Austere

/-!
# Axioms

The five axioms of arithmetic, and when a formula counts as one of a list of
axioms. Outermost universal quantifiers and the names of variables do not
matter: formulas are compared by their keys. An instance of an axiom has
another key than the axiom.
-/

namespace Typographical

/-- What is left of a formula once the choice of its outermost universal
quantifiers and of its variable names is forgotten. -/
def Formula.key (f : Formula) : Formula := f.stripForAll.closure.austere

namespace Axioms

def first : Term := .var (.austere 0)

def second : Term := .var ⟨'b', 0, rfl⟩

/-- Zero is no successor, and sums and products are determined by recursion on
the right operand. -/
def peano : List Formula := [
  .neg (.equality (.succ first) .zero),
  .equality (.sum first .zero) first,
  .equality (.sum first (.succ second)) (.succ (.sum first second)),
  .equality (.product first .zero) .zero,
  .equality (.product first (.succ second)) (.sum (.product first second) first)]

/-- The index of the first axiom that a formula counts as. -/
def find? (axioms : List Formula) (f : Formula) : Option Nat :=
  let key := f.key
  axioms.findIdx? (fun g => key = g.key)

end Axioms

end Typographical
