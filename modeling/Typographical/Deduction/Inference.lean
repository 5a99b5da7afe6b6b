import Typographical.Deduction.Failure
import Typographical.Formula.Austere
import Typographical.Formula.Alteration
import Typographical.Formula.Substitution

/-!
# Inferences

An inference applies a rule to one or two earlier theorems, named by their
numbers. Here stands what follows from the theorems themselves; which theorems
may be named, and that the conclusion has to be well quantified, is left to the
deduction.

Each function takes the theorems it needs together with their numbers, which
appear in the wording of failures.
-/

namespace Typographical

inductive Side where
  | left
  | right
  deriving DecidableEq

def Side.name : Side → String
  | left => "left"
  | right => "right"

/-- A rule, the numbers of the theorems that it is applied to, and its other
arguments. -/
inductive Inference where
  | specification (n : UInt64) (v : Variable) (t : Term)
  | generalization (n : UInt64) (v : Variable)
  | existence (n : UInt64) (t : Term) (v : Variable)
  | interchangeEA (n : UInt64) (v : Variable) (k : UInt64)
  | interchangeAE (n : UInt64) (v : Variable) (k : UInt64)
  | successor (n : UInt64)
  | predecessor (n : UInt64)
  | symmetry (n : UInt64)
  | transitivity (n m : UInt64)
  | induction (v : Variable) (base general : UInt64)
  | joining (n m : UInt64)
  | separation (n : UInt64) (side : Side)
  | detachment (n m : UInt64)
  | contrapositive (n : UInt64)
  | deMorgan (n : UInt64)
  | switcheroo (n : UInt64)
  | addDoubleTilde (n k : UInt64)
  | removeDoubleTilde (n k : UInt64)
  deriving DecidableEq

namespace Inference

def rule : Inference → Rule
  | specification .. => .specification
  | generalization .. => .generalization
  | existence .. => .existence
  | interchangeEA .. => .interchangeEA
  | interchangeAE .. => .interchangeAE
  | successor .. => .successor
  | predecessor .. => .predecessor
  | symmetry .. => .symmetry
  | transitivity .. => .transitivity
  | induction .. => .induction
  | joining .. => .joining
  | separation .. => .separation
  | detachment .. => .detachment
  | contrapositive .. => .contrapositive
  | deMorgan .. => .deMorgan
  | switcheroo .. => .switcheroo
  | addDoubleTilde .. => .addDoubleTilde
  | removeDoubleTilde .. => .removeDoubleTilde

def annotation : Inference → String
  | specification n v t => s!"specification {n}, {v}:={t}"
  | generalization n v => s!"generalization {n}, {v}"
  | existence n t v => s!"existence {n}, {t}:={v}"
  | interchangeEA n v k => s!"interchange_ea {n}, {v}, {k}"
  | interchangeAE n v k => s!"interchange_ae {n}, {v}, {k}"
  | successor n => s!"successor {n}"
  | predecessor n => s!"predecessor {n}"
  | symmetry n => s!"symmetry {n}"
  | transitivity n m => s!"transitivity {n}, {m}"
  | induction v base general => s!"induction {v}, {base}, {general}"
  | joining n m => s!"joining {n}, {m}"
  | separation n side => "separation " ++ toString n ++ ", " ++ side.name
  | detachment n m => s!"detachment {n}, {m}"
  | contrapositive n => s!"contrapositive {n}"
  | deMorgan n => s!"de morgan {n}"
  | switcheroo n => s!"switcheroo {n}"
  | addDoubleTilde n k => s!"add_double_tilde {n}, {k}"
  | removeDoubleTilde n k => s!"remove_double_tilde {n}, {k}"

/-- From `Av:F`, the formula `F` with `t` in place of `v`, unless a quantifier
within `F` would capture another variable of `t`. -/
def specify (n : UInt64) (v : Variable) (t : Term) (f : Formula) : Except Cause Formula :=
  match f with
  | .quantified .forAll w body =>
    if w = v then
      let bound := body.boundVars
      match t.vars.toList.find? (fun u => u ≠ v && bound.contains u) with
      | some u => .error (.captured t u f)
      | none => .ok (body.substitute v t)
    else .error (.notUniversal n v f)
  | _ => .error (.notUniversal n v f)

/-- From `F`, the formula `Av:F`, unless `v` is bound within `F` or free in the
premise of the open supposition. -/
def generalize (n : UInt64) (v : Variable) (premise : Option Formula) (f : Formula) :
    Except Cause Formula :=
  if f.boundVars.contains v then .error (.alreadyBound v n f)
  else
    match premise with
    | none => .ok (.forAll v f)
    | some p => if p.isFree v then .error (.freeInPremise v f p) else .ok (.forAll v f)

/-- A variable that occurs nowhere in a formula and a term and differs from
`v`. It stands for the term while the other occurrences of `v` are looked for. -/
def placeholder (f : Formula) (t : Term) (v : Variable) : Variable :=
  fresh ((f.allVars.union t.vars).insert v)

/-- From `F`, the formula `Ev:F'` where `F'` has `v` in place of `t`, unless `v`
is bound within `F` or occurs free outside of `t`. -/
def exhibit (n : UInt64) (t : Term) (v : Variable) (f : Formula) : Except Cause Formula :=
  if f.boundVars.contains v then .error (.alreadyBound v n f)
  else
    let body := f.replaceTerm t (.var (placeholder f t v))
    if body.isFree v then .error (.occursOutside v n t f)
    else .ok (.thereIs v (body.substitute (placeholder f t v) (.var v)))

/-- Turn `~Ev:F` into `Av:~F`. -/
def negatedThereIs (v : Variable) : Formula → Option Formula
  | .neg (.quantified .thereIs w f) => if w = v then some (.forAll v (.neg f)) else none
  | _ => none

/-- Turn `Av:~F` into `~Ev:F`. -/
def forAllNegated (v : Variable) : Formula → Option Formula
  | .quantified .forAll w (.neg f) => if w = v then some (.neg (.thereIs v f)) else none
  | _ => none

def doubleNegation (f : Formula) : Option Formula := some (.neg (.neg f))

def withoutDoubleNegation : Formula → Option Formula
  | .neg (.neg f) => some f
  | _ => none

/-- Change one occurrence, and complain if there are too few. -/
def alterOccurrence (change : Formula → Option Formula) (k : UInt64) (complaint : Cause)
    (f : Formula) : Except Cause Formula :=
  match f.alterNth? change k.toNat with
  | some g => .ok g
  | none => .error complaint

def sides (n : UInt64) : Formula → Except Cause (Term × Term)
  | .equality l r => .ok (l, r)
  | f => .error (.notEquality n f)

/-- From `r=s`, the formula `Sr=Ss`. -/
def succeed (n : UInt64) (f : Formula) : Except Cause Formula :=
  (sides n f).map (fun (l, r) => .equality (.succ l) (.succ r))

/-- From `Sr=Ss`, the formula `r=s`. -/
def precede (n : UInt64) (f : Formula) : Except Cause Formula := do
  match ← sides n f with
  | (.succ l, .succ r) => .ok (.equality l r)
  | _ => .error (.notSuccessors n f)

/-- From `r=s`, the formula `s=r`. -/
def flip (n : UInt64) (f : Formula) : Except Cause Formula :=
  (sides n f).map (fun (l, r) => .equality r l)

/-- From `r=s` and `s=t`, the formula `r=t`. -/
def chain (n m : UInt64) (f g : Formula) : Except Cause Formula :=
  match f, g with
  | .equality r s, .equality s' t =>
    if s = s' then .ok (.equality r t) else .error (.termsDiffer s s' f g)
  | _, _ => .error (.notBothEqualities n m f g)

/-- From `P` at zero and `Av:[P>P']`, where `P'` is `P` at the successor of `v`,
the formula `Av:P`. -/
def induct (v : Variable) (general : UInt64) (b g : Formula) : Except Cause Formula :=
  match g with
  | .quantified .forAll w (.binary .implies statement next) =>
    if w = v then
      let atSuccessor := statement.substitute v (.succ (.var v))
      let atZero := statement.substitute v .zero
      if statement.boundVars.contains v then .error (.boundInStatement v statement g)
      else if next ≠ atSuccessor then .error (.wrongConsequent atSuccessor general v g)
      else if b.containsVar v then .error (.variableInBase v b)
      else if b ≠ atZero then .error (.wrongBase atZero v b g)
      else .ok (.forAll v statement)
    else .error (.notInductive general v g)
  | _ => .error (.notInductive general v g)

/-- From `[x&y]`, one of `x` and `y`. -/
def separate (n : UInt64) (side : Side) : Formula → Except Cause Formula
  | .binary .and l r =>
    match side with
    | .left => .ok l
    | .right => .ok r
  | f => .error (.notConjunction n f)

/-- From `x` and `[x>y]`, the formula `y`. -/
def detach (n m : UInt64) (f g : Formula) : Except Cause Formula :=
  match g with
  | .binary .implies l r => if l = f then .ok r else .error (.antecedentDiffers n l f g)
  | _ => .error (.notImplication m g)

/-- From `[~x>~y]`, the formula `[y>x]`; from any other `[x>y]`, `[~y>~x]`. -/
def contrapose (n : UInt64) : Formula → Except Cause Formula
  | .binary .implies (.neg l) (.neg r) => .ok (.implies r l)
  | .binary .implies l r => .ok (.implies (.neg r) (.neg l))
  | f => .error (.notImplication n f)

/-- From `[~x&~y]`, the formula `~[x|y]`, and back. -/
def exchangeDeMorgan (n : UInt64) : Formula → Except Cause Formula
  | .binary .and (.neg l) (.neg r) => .ok (.neg (.or l r))
  | .neg (.binary .or l r) => .ok (.and (.neg l) (.neg r))
  | f => .error (.notDeMorgan n f)

/-- From `[x|y]`, the formula `[~x>y]`, and back. -/
def exchangeSwitcheroo (n : UInt64) : Formula → Except Cause Formula
  | .binary .or l r => .ok (.implies (.neg l) r)
  | .binary .implies (.neg l) r => .ok (.or l r)
  | f => .error (.notSwitcheroo n f)

/-- What an inference concludes, where `use` gives the theorem with a number
and `premise` is the premise of the open supposition. The theorems are asked
for in the order in which they are named. -/
def conclude (use : UInt64 → Except Cause Formula) (premise : Except Cause (Option Formula)) :
    Inference → Except Cause Formula
  | specification n v t => do specify n v t (← use n)
  | generalization n v => do
    let f ← use n
    generalize n v (← premise) f
  | existence n t v => do exhibit n t v (← use n)
  | interchangeEA n v k => do
    let f ← use n
    alterOccurrence (negatedThereIs v) k (.tooFewFor n k v f) f
  | interchangeAE n v k => do
    let f ← use n
    alterOccurrence (forAllNegated v) k (.tooFewFor n k v f) f
  | successor n => do succeed n (← use n)
  | predecessor n => do precede n (← use n)
  | symmetry n => do flip n (← use n)
  | transitivity n m => do
    let f ← use n
    chain n m f (← use m)
  | induction v base general => do
    let b ← use base
    induct v general b (← use general)
  | joining n m => do
    let f ← use n
    return .and f (← use m)
  | separation n side => do separate n side (← use n)
  | detachment n m => do
    let f ← use n
    detach n m f (← use m)
  | contrapositive n => do contrapose n (← use n)
  | deMorgan n => do exchangeDeMorgan n (← use n)
  | switcheroo n => do exchangeSwitcheroo n (← use n)
  | addDoubleTilde n k => do
    let f ← use n
    alterOccurrence doubleNegation k (.tooFew n k f) f
  | removeDoubleTilde n k => do
    let f ← use n
    alterOccurrence withoutDoubleNegation k (.tooFew n k f) f

end Inference

end Typographical
