import Typographical.Script
import Typographical.Script.Failure

/-!
# Checking scripts

The steps of a script are carried out one after the other, up to the first that
fails. A step that establishes another theorem than it announces fails as well,
but its theorem stays in the deduction. Theorems are compared up to the names of
bound variables.

A script that announces no flaw has to succeed; any other one has to fail with
the flaw it announces.
-/

namespace Typographical

namespace Script

namespace Step

def reference (s : Step) : Except StepFailure UInt64 :=
  match s.references with
  | [n] => .ok n
  | ns => .error (.arguments (.references 1 ns.length))

def referencePair (s : Step) : Except StepFailure (UInt64 × UInt64) :=
  match s.references with
  | [n, m] => .ok (n, m)
  | ns => .error (.arguments (.references 2 ns.length))

def noReference (s : Step) : Except StepFailure Unit :=
  match s.references with
  | [] => .ok ()
  | ns => .error (.arguments (.references 0 ns.length))

def readFormula (s : Step) : Except StepFailure Formula :=
  if s.formula = "" then .error (.arguments .missingFormula)
  else
    match Formula.parse s.formula with
    | .ok f => .ok f
    | .error (.unreadable e) => .error (.unreadable e)
    | .error (.malformed m _) => .error (.malformed m)

def readVariable (s : Step) : Except StepFailure Variable :=
  if s.variableName = "" then .error (.arguments .missingVariable)
  else (Variable.parse s.variableName).mapError .invalidVariable

def readTerm (s : Step) : Except StepFailure Term :=
  if s.term = "" then .error (.arguments .missingTerm)
  else (Term.parse s.term).mapError .unreadable

/-- The side of a step, which is the left one unless something else is said. -/
def readSide (s : Step) : Except StepFailure Side :=
  if s.side = "" ∨ s.side = "left" then .ok .left
  else if s.side = "right" then .ok .right
  else .error (.arguments (.unknownSide s.side))

def one (s : Step) (make : UInt64 → Inference) : Except StepFailure Move := do
  return .infer (make (← s.reference))

def two (s : Step) (make : UInt64 → UInt64 → Inference) : Except StepFailure Move := do
  let (n, m) ← s.referencePair
  return .infer (make n m)

/-- The move that a step spells out for a rule. Arguments are read in the order
references, variable, term. -/
def moveBy (s : Step) : Rule → Except StepFailure Move
  | .postulate => s.readFormula.map .postulate
  | .supposition => s.readFormula.map .suppose
  | .implication => s.noReference.map (fun _ => .discharge)
  | .specification => do
    let n ← s.reference
    let v ← s.readVariable
    return .infer (.specification n v (← s.readTerm))
  | .generalization => do
    let n ← s.reference
    return .infer (.generalization n (← s.readVariable))
  | .existence => do
    let n ← s.reference
    let v ← s.readVariable
    return .infer (.existence n (← s.readTerm) v)
  | .interchangeEA => do
    let n ← s.reference
    return .infer (.interchangeEA n (← s.readVariable) s.occurrence)
  | .interchangeAE => do
    let n ← s.reference
    return .infer (.interchangeAE n (← s.readVariable) s.occurrence)
  | .induction => do
    let (base, general) ← s.referencePair
    return .infer (.induction (← s.readVariable) base general)
  | .separation => do
    let n ← s.reference
    return .infer (.separation n (← s.readSide))
  | .successor => s.one .successor
  | .predecessor => s.one .predecessor
  | .symmetry => s.one .symmetry
  | .contrapositive => s.one .contrapositive
  | .deMorgan => s.one .deMorgan
  | .switcheroo => s.one .switcheroo
  | .addDoubleTilde => s.one (.addDoubleTilde · s.occurrence)
  | .removeDoubleTilde => s.one (.removeDoubleTilde · s.occurrence)
  | .transitivity => s.two .transitivity
  | .joining => s.two .joining
  | .detachment => s.two .detachment

def move (s : Step) : Except StepFailure Move :=
  match Rule.ofName? s.rule with
  | none => .error (.unknownRule s.rule)
  | some r => s.moveBy r

/-- Compare the theorem of a step with the one announced, if there is one. -/
def meets (s : Step) (f : Formula) : Except StepFailure Unit :=
  if s.expectation = "" then .ok ()
  else
    match Formula.parse s.expectation with
    | .error e => .error (.badExpectation e)
    | .ok expected =>
      if expected.austereEquals f then .ok () else .error (.unmet f expected)

/-- The deduction after a step, and why the step failed if it did. -/
def perform (s : Step) (d : Deduction) : Deduction × Option StepFailure :=
  match s.move with
  | .error e => (d, some e)
  | .ok m =>
    match d.apply m with
    | .error e => (d, some (.refused e))
    | .ok (f, d') =>
      match s.meets f with
      | .error e => (d', some e)
      | .ok () => (d', none)

end Step

/-- Carry out steps from a given number on, up to the first that fails. -/
def runSteps (d : Deduction) (index : Nat) : List Step → Deduction × Option Failure
  | [] => (d, none)
  | s :: rest =>
    match s.perform d with
    | (d', none) => runSteps d' (index + 1) rest
    | (d', some e) => (d', some (.step index s.rule e))

def reaches (goal : String) (d : Deduction) : Except Failure Unit :=
  match Formula.parse goal with
  | .error e => .error (.badGoal e)
  | .ok expected =>
    match d.lastTheorem with
    | .error e => .error (.empty e)
    | .ok proved =>
      if expected.austereEquals proved then .ok () else .error (.unproved proved expected)

/-- The deduction that a script gives, and why the script failed if it did. -/
def run (s : Script) (axioms : List Formula) : Deduction × Option Failure :=
  match runSteps (.start s.title axioms) 0 s.steps with
  | (d, some e) => (d, some e)
  | (d, none) =>
    if s.goal = "" then (d, none)
    else
      match reaches s.goal d with
      | .error e => (d, some e)
      | .ok () => (d, none)

/-- Whether an outcome is the one that a script announces. -/
def verify (s : Script) (outcome : Option Failure) : Option Objection :=
  if s.flaw = "" then outcome.map .failed
  else
    match Flaw.ofName? s.flaw, outcome with
    | none, _ => some (.unknownFlaw s.flaw)
    | some _, none => some (.unexpectedSuccess s.flaw)
    | some flaw, some e => if e.layers.includes flaw then none else some (.otherFlaw s.flaw e)

def check (s : Script) (axioms : List Formula) : Deduction × Option Objection :=
  let (d, outcome) := s.run axioms
  (d, s.verify outcome)

end Script

end Typographical
