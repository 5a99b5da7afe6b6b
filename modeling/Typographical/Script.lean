/-!
# Scripts

A script is a written proof: a title, the applications of rules that make it
up, and what is expected of it. All parts are still text here. Which fields of a
step matter depends on its rule; an empty field counts as missing.
-/

namespace Typographical

/-- An application of a rule, as written. -/
structure Script.Step where
  rule : String := ""
  formula : String := ""
  references : List UInt64 := []
  variableName : String := ""
  term : String := ""
  occurrence : UInt64 := 0
  side : String := ""
  expectation : String := ""
  deriving DecidableEq

/-- A proof, as written. If `goal` is given, the last step has to establish it;
if `flaw` is given, the proof has to fail in the way named there. -/
structure Script where
  title : String := ""
  goal : String := ""
  flaw : String := ""
  steps : List Script.Step := []
  deriving DecidableEq

end Typographical
