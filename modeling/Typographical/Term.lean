import Typographical.Collection.SortedSet
import Typographical.Variable

/-!
# Terms

Terms are built from zero and variables by successor, sum and product. Sums and
products are always written in parentheses, so the text of a term determines it.
Terms bind nothing; replacing a variable or a subterm needs no care for capture.
-/

namespace Typographical

inductive Term where
  | zero
  | var (v : Variable)
  | succ (t : Term)
  | sum (l r : Term)
  | product (l r : Term)
  deriving DecidableEq

namespace Term

/-- The canonical text of a term. -/
def chars : Term → List Char
  | zero => ['0']
  | var v => v.chars
  | succ t => 'S' :: t.chars
  | sum l r => '(' :: l.chars ++ '+' :: r.chars ++ [')']
  | product l r => '(' :: l.chars ++ '*' :: r.chars ++ [')']

def text (t : Term) : String := String.ofList t.chars

instance : ToString Term := ⟨text⟩

/-- The variables of a term, each time it occurs, in textual order. -/
def occurrences : Term → List Variable
  | zero => []
  | var v => [v]
  | succ t => t.occurrences
  | sum l r => l.occurrences ++ r.occurrences
  | product l r => l.occurrences ++ r.occurrences

def vars (t : Term) : SortedSet Variable := .ofList t.occurrences

def containsVar (v : Variable) : Term → Bool
  | zero => false
  | var w => w = v
  | succ t => t.containsVar v
  | sum l r => l.containsVar v || r.containsVar v
  | product l r => l.containsVar v || r.containsVar v

/-- Put a term in place of every variable. -/
def bind (f : Variable → Term) : Term → Term
  | zero => zero
  | var v => f v
  | succ t => succ (t.bind f)
  | sum l r => sum (l.bind f) (r.bind f)
  | product l r => product (l.bind f) (r.bind f)

def replace (t : Term) (v : Variable) (u : Term) : Term :=
  t.bind (fun w => if w = v then u else var w)

def rename (f : Variable → Variable) (t : Term) : Term := t.bind (fun w => var (f w))

/-- Put `new` in place of the subterm `old`, outermost occurrences first. -/
def replaceSubterm : Term → Term → Term → Term
  | zero, old, new => if zero = old then new else zero
  | var v, old, new => if var v = old then new else var v
  | succ t, old, new => if succ t = old then new else succ (t.replaceSubterm old new)
  | sum l r, old, new =>
    if sum l r = old then new else sum (l.replaceSubterm old new) (r.replaceSubterm old new)
  | product l r, old, new =>
    if product l r = old then new
    else product (l.replaceSubterm old new) (r.replaceSubterm old new)

def containsSubterm : Term → Term → Bool
  | zero, u => zero = u
  | var v, u => var v = u
  | succ t, u => succ t = u || t.containsSubterm u
  | sum l r, u => sum l r = u || l.containsSubterm u || r.containsSubterm u
  | product l r, u => product l r = u || l.containsSubterm u || r.containsSubterm u

/-- The numeral of a number: as many successors of zero. -/
def numeral : Nat → Term
  | 0 => zero
  | n + 1 => succ (numeral n)

def numeralValue? : Term → Option Nat
  | zero => some 0
  | succ t => t.numeralValue?.map (· + 1)
  | _ => none

end Term

end Typographical
