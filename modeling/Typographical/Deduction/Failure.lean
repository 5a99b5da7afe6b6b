import Typographical.Collection.Stack
import Typographical.Deduction.Rule
import Typographical.Formula.WellFormed

/-!
# Failures

Why a rule does not apply. A cause holds the theorem references, formulas and
variables involved; its kind, its wording and what it blames are read off it.

The last two causes would be flaws of the deduction itself rather than of the
rule's arguments: they have no kind.
-/

namespace Typographical

/-- The kinds of failure that a proof may be expected to end with. -/
inductive Kind where
  | unfounded
  | scope
  | capture
  | generalization
  | mismatch
  | shape
  | nestedSupposition
  | noSupposition
  | induction
  | index
  | malformed
  deriving DecidableEq

namespace Kind

def name : Kind → String
  | unfounded => "axiom"
  | scope => "scope"
  | capture => "capture"
  | generalization => "generalization"
  | mismatch => "mismatch"
  | shape => "structure"
  | nestedSupposition => "nested_supposition"
  | noSupposition => "no_supposition"
  | induction => "induction"
  | index => "index"
  | malformed => "malformed"

def label : Kind → String
  | unfounded => "axiom error"
  | scope => "scope error"
  | capture => "capture error"
  | generalization => "generalization error"
  | mismatch => "mismatch error"
  | shape => "structure error"
  | nestedSupposition => "nested supposition error"
  | noSupposition => "no supposition error"
  | induction => "induction error"
  | index => "index error"
  | malformed => "malformed formula"

def all : List Kind := [
  unfounded, scope, capture, generalization, mismatch, shape, nestedSupposition,
  noSupposition, induction, index, malformed]

/-- The lowercase of a character, as far as it can be an ASCII letter: the
dotted capital I and the Kelvin sign have ASCII lowercase letters, too. -/
def lower (c : Char) : Char :=
  if c = '\u0130' then 'i' else if c = '\u212A' then 'k' else c.toLower

/-- The kind with a given name, whatever the case of its letters. -/
def ofName? (name : String) : Option Kind :=
  all.find? (fun k => k.name.toList = name.toList.map lower)

end Kind

/-- What was attempted: a rule, or looking up a theorem. -/
inductive Operation where
  | rule (r : Rule)
  | lookup
  deriving DecidableEq

def Operation.name : Operation → String
  | rule r => r.name
  | lookup => "theorem"

inductive Cause where
  | missing (n : UInt64) (count : Nat)
  | noTheorems
  | closedSupposition (n : UInt64) (f : Formula)
  | malformed (f : Formula) (m : Malformation)
  | unfounded (f : Formula)
  | notUniversal (n : UInt64) (v : Variable) (f : Formula)
  | captured (t : Term) (u : Variable) (f : Formula)
  | alreadyBound (v : Variable) (n : UInt64) (f : Formula)
  | freeInPremise (v : Variable) (f premise : Formula)
  | occursOutside (v : Variable) (n : UInt64) (t : Term) (f : Formula)
  | tooFew (n k : UInt64) (f : Formula)
  | tooFewFor (n k : UInt64) (v : Variable) (f : Formula)
  | alreadyOpen (start : Nat) (opened premise : Formula)
  | noSupposition
  | notInductive (general : UInt64) (v : Variable) (g : Formula)
  | boundInStatement (v : Variable) (statement g : Formula)
  | wrongConsequent (expected : Formula) (general : UInt64) (v : Variable) (g : Formula)
  | variableInBase (v : Variable) (b : Formula)
  | wrongBase (expected : Formula) (v : Variable) (b g : Formula)
  | notEquality (n : UInt64) (f : Formula)
  | notSuccessors (n : UInt64) (f : Formula)
  | notBothEqualities (n m : UInt64) (f g : Formula)
  | termsDiffer (s t : Term) (f g : Formula)
  | notConjunction (n : UInt64) (f : Formula)
  | notImplication (n : UInt64) (f : Formula)
  | antecedentDiffers (n : UInt64) (antecedent f g : Formula)
  | notDeMorgan (n : UInt64) (f : Formula)
  | notSwitcheroo (n : UInt64) (f : Formula)
  | scopesFault (fault : Stack.Fault)
  | lostStep (index : Nat)
  deriving DecidableEq

namespace Cause

def kind : Cause → Option Kind
  | missing .. | noTheorems => some .index
  | closedSupposition .. | notUniversal .. | tooFew .. | tooFewFor .. => some .scope
  | malformed .. => some .malformed
  | unfounded .. => some .unfounded
  | captured .. => some .capture
  | alreadyBound .. | freeInPremise .. | occursOutside .. => some .generalization
  | alreadyOpen .. => some .nestedSupposition
  | noSupposition => some .noSupposition
  | notInductive .. | boundInStatement .. | wrongConsequent .. | variableInBase ..
  | wrongBase .. => some .induction
  | notBothEqualities .. | termsDiffer .. | antecedentDiffers .. => some .mismatch
  | notEquality .. | notSuccessors .. | notConjunction .. | notImplication ..
  | notDeMorgan .. | notSwitcheroo .. => some .shape
  | scopesFault .. | lostStep .. => none

def message : Cause → String
  | missing n count => s!"theorem {n} does not exist (deduction has {count} theorems)"
  | noTheorems => "deduction has no theorems"
  | closedSupposition n _ => s!"theorem {n} belongs to a closed supposition"
  | malformed _ m => m.message
  | unfounded f => s!"{f} is not an axiom"
  | notUniversal n v _ => s!"theorem {n} is not of the form A{v}:..."
  | captured t u _ => s!"term {t} would be captured by quantifier of {u}"
  | alreadyBound v n _ => s!"{v} is already bound in theorem {n}"
  | freeInPremise v _ premise => s!"{v} is free in premise {premise}"
  | occursOutside v n t _ => s!"{v} occurs free in theorem {n} outside of {t}"
  | tooFew n k _ => s!"theorem {n} has fewer than {k + 1} matching occurrences"
  | tooFewFor n k v _ => s!"theorem {n} has fewer than {k + 1} matching occurrences for {v}"
  | alreadyOpen start _ _ => s!"supposition already open at theorem {start}"
  | noSupposition => "no supposition is open"
  | notInductive general v _ => s!"theorem {general} is not of the form A{v}:[P>P']"
  | boundInStatement v statement _ => s!"{v} is bound within {statement}"
  | wrongConsequent expected general _ _ =>
    s!"expected {expected} as consequent of theorem {general}"
  | variableInBase v _ => s!"{v} occurs in base case"
  | wrongBase expected _ b _ => s!"base case {b} does not match {expected}"
  | notEquality n _ => s!"theorem {n} is not an equality"
  | notSuccessors n _ => s!"theorem {n} is not of the form Sr=Ss"
  | notBothEqualities n m _ _ => s!"theorems {n} and {m} are not both equalities"
  | termsDiffer s t _ _ => s!"{s} does not match {t}"
  | notConjunction n _ => s!"theorem {n} is not a conjunction"
  | notImplication n _ => s!"theorem {n} is not an implication"
  | antecedentDiffers n antecedent _ _ =>
    s!"theorem {n} does not match antecedent {antecedent}"
  | notDeMorgan n _ => s!"theorem {n} is not of the form [~x&~y] or ~[x|y]"
  | notSwitcheroo n _ => s!"theorem {n} is not of the form [x|y] or [~x>y]"
  | scopesFault fault => fault.message
  | lostStep index => s!"step {index} is lost"

def formulas : Cause → List Formula
  | missing .. | noTheorems | noSupposition | scopesFault .. | lostStep .. => []
  | closedSupposition _ f | malformed f _ | unfounded f | notUniversal _ _ f
  | captured _ _ f | alreadyBound _ _ f | occursOutside _ _ _ f | tooFew _ _ f
  | tooFewFor _ _ _ f | notEquality _ f | notSuccessors _ f | notConjunction _ f
  | notImplication _ f | notDeMorgan _ f | notSwitcheroo _ f => [f]
  | notInductive _ _ g | boundInStatement _ _ g | wrongConsequent _ _ _ g => [g]
  | variableInBase _ b => [b]
  | freeInPremise _ f premise => [f, premise]
  | alreadyOpen _ opened premise => [opened, premise]
  | wrongBase _ _ b g => [b, g]
  | notBothEqualities _ _ f g | termsDiffer _ _ f g | antecedentDiffers _ _ f g => [f, g]

def vars : Cause → List Variable
  | notUniversal _ v _ | captured _ v _ | alreadyBound v _ _ | freeInPremise v _ _
  | occursOutside v _ _ _ | tooFewFor _ _ v _ | notInductive _ v _
  | boundInStatement v _ _ | wrongConsequent _ _ v _ | variableInBase v _
  | wrongBase _ v _ _ => [v]
  | _ => []

end Cause

structure Failure where
  operation : Operation
  cause : Cause
  deriving DecidableEq

def Failure.message (e : Failure) : String := e.operation.name ++ ": " ++ e.cause.message

end Typographical
