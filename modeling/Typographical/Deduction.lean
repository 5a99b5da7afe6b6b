import Typographical.Axioms
import Typographical.Deduction.Inference

/-!
# Deductions

A deduction is a log of theorems. Each was an axiom, the premise of a
supposition, or followed from earlier theorems by a rule. While a supposition
is open, theorems hold under its premise only; closing it turns premise and last
theorem into an implication that holds without it, and the theorems in between
can no longer be used. Suppositions are not nested.

A move either appends exactly one theorem or leaves the deduction as it is.
-/

namespace Typographical

inductive Justification where
  | postulated (number : Nat)
  | supposed
  | discharged (first last : Nat)
  | inferred (i : Inference)
  deriving DecidableEq

/-- How a justification is noted; axioms are counted from one. -/
def Justification.annotation : Justification → String
  | postulated number => s!"axiom {number + 1}"
  | supposed => "supposition"
  | discharged first last => s!"implication {first}-{last}"
  | inferred i => i.annotation

/-- A theorem, where it came from, the number of suppositions it stands under,
and where the innermost of these begins. -/
structure Step where
  formula : Formula
  justification : Justification
  depth : Nat
  scopeStart : Nat
  deriving DecidableEq

/-- A log of theorems over a list of axioms, and where the open suppositions
begin. -/
structure Deduction where
  title : String
  axioms : List Formula
  steps : List Step
  scopes : Stack Nat
  deriving DecidableEq

inductive Move where
  | postulate (f : Formula)
  | suppose (f : Formula)
  | discharge
  | infer (i : Inference)
  deriving DecidableEq

def Move.rule : Move → Rule
  | postulate _ => .postulate
  | suppose _ => .supposition
  | discharge => .implication
  | infer i => i.rule

namespace Deduction

/-- At most this many suppositions may be open. -/
def maxDepth : UInt64 := 1

def start (title : String) (axioms : List Formula) : Deduction :=
  ⟨title, axioms, [], .bounded maxDepth⟩

def size (d : Deduction) : Nat := d.steps.length

def depth (d : Deduction) : Nat := d.scopes.size

def theorems (d : Deduction) : List Formula := d.steps.map Step.formula

def lookup (d : Deduction) (n : UInt64) : Except Failure Formula :=
  match d.steps[n.toNat]? with
  | some s => .ok s.formula
  | none => .error ⟨.lookup, .missing n d.size⟩

def lastTheorem (d : Deduction) : Except Failure Formula :=
  match d.steps.getLast? with
  | some s => .ok s.formula
  | none => .error ⟨.lookup, .noTheorems⟩

/-- Where the open supposition begins, if one is open. -/
def openScope (d : Deduction) : Except Cause (Option Nat) :=
  if d.scopes.isEmpty then .ok none else (d.scopes.peek 0).mapError .scopesFault |>.map some

/-- The formula of a step that is known to exist. -/
def formulaAt (d : Deduction) (index : Nat) : Except Cause Formula :=
  match d.steps[index]? with
  | some s => .ok s.formula
  | none => .error (.lostStep index)

def openPremise (d : Deduction) : Except Cause (Option Formula) := do
  match ← d.openScope with
  | none => .ok none
  | some start => return some (← d.formulaAt start)

/-- The theorem with a given number, provided that it exists and does not stand
under a supposition that has been closed. -/
def use (d : Deduction) (n : UInt64) : Except Cause Formula :=
  match d.steps[n.toNat]? with
  | none => .error (.missing n d.size)
  | some s =>
    if s.depth = 0 then .ok s.formula
    else do
      if (← d.openScope) = some s.scopeStart then .ok s.formula
      else .error (.closedSupposition n s.formula)

def admissible (f : Formula) : Except Cause Unit :=
  f.checkWellFormed.mapError (.malformed f)

/-- Append a theorem under the suppositions that are open. -/
def append (d : Deduction) (f : Formula) (j : Justification) : Except Cause Deduction := do
  let scope := (← d.openScope).getD 0
  return { d with steps := d.steps ++ [⟨f, j, d.depth, scope⟩] }

/-- Append a theorem if it is well quantified. -/
def derive (d : Deduction) (f : Formula) (j : Justification) :
    Except Cause (Formula × Deduction) := do
  admissible f
  return (f, ← d.append f j)

def postulate (d : Deduction) (f : Formula) : Except Cause (Formula × Deduction) :=
  match Axioms.find? d.axioms f with
  | none => .error (.unfounded f)
  | some index => d.derive f (.postulated index)

def suppose (d : Deduction) (premise : Formula) : Except Cause (Formula × Deduction) :=
  if d.scopes.isFull then do
    let start ← (d.scopes.peek 0).mapError .scopesFault
    .error (.alreadyOpen start (← d.formulaAt start) premise)
  else do
    admissible premise
    let scopes ← (d.scopes.push d.size).mapError .scopesFault
    return (premise, ← { d with scopes := scopes }.append premise .supposed)

def discharge (d : Deduction) : Except Cause (Formula × Deduction) :=
  if d.scopes.isEmpty then .error .noSupposition
  else do
    let start ← (d.scopes.peek 0).mapError .scopesFault
    let last := d.size - 1
    let f := Formula.implies (← d.formulaAt start) (← d.formulaAt last)
    admissible f
    let (_, scopes) ← d.scopes.pop.mapError .scopesFault
    return (f, ← { d with scopes := scopes }.append f (.discharged start last))

def infer (d : Deduction) (i : Inference) : Except Cause (Formula × Deduction) := do
  d.derive (← i.conclude d.use d.openPremise) (.inferred i)

/-- The theorem that a move gives and the deduction with it, or why there is
none. -/
def apply (d : Deduction) (m : Move) : Except Failure (Formula × Deduction) :=
  let result :=
    match m with
    | .postulate f => d.postulate f
    | .suppose f => d.suppose f
    | .discharge => d.discharge
    | .infer i => d.infer i
  result.mapError (Failure.mk (.rule m.rule))

/-- The deduction after a move, which is the same one if the move fails. -/
def advance (d : Deduction) (m : Move) : Deduction :=
  match d.apply m with
  | .ok (_, d') => d'
  | .error _ => d

def run (d : Deduction) (moves : List Move) : Deduction := moves.foldl advance d

/-- A number in at least three places. -/
def number (n : Nat) : String :=
  let digits := toString n
  String.ofList (List.replicate (3 - digits.length) ' ') ++ digits

def line (index : Nat) (s : Step) : String :=
  let indent := String.ofList (List.replicate (2 * s.depth) ' ')
  number index ++ " " ++ indent ++ s.formula.text ++ "\t(" ++
    s.justification.annotation ++ ")\n"

/-- The title, unless empty, and the numbered theorems. -/
def log (d : Deduction) : String :=
  let heading := if d.title = "" then "" else d.title ++ "\n"
  heading ++ String.join (d.steps.mapIdx line)

end Deduction

end Typographical
