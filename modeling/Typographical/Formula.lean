import Typographical.Term

/-!
# Formulas

Formulas are built from equalities of terms by negation, the three binary
connectives and the two quantifiers. Binary formulas are always written in
brackets, so the text of a formula determines it. Nothing here asks a formula
to be well quantified: a variable may be quantified twice, or be both free and
bound.
-/

namespace Typographical

inductive Connective where
  | and
  | or
  | implies
  deriving DecidableEq

def Connective.symbol : Connective → Char
  | and => '&'
  | or => '|'
  | implies => '>'

inductive Quantifier where
  | forAll
  | thereIs
  deriving DecidableEq

def Quantifier.symbol : Quantifier → Char
  | forAll => 'A'
  | thereIs => 'E'

inductive Formula where
  | equality (l r : Term)
  | neg (f : Formula)
  | binary (op : Connective) (l r : Formula)
  | quantified (q : Quantifier) (v : Variable) (f : Formula)
  deriving DecidableEq

namespace Formula

abbrev and (l r : Formula) : Formula := binary .and l r

abbrev or (l r : Formula) : Formula := binary .or l r

abbrev implies (l r : Formula) : Formula := binary .implies l r

abbrev forAll (v : Variable) (f : Formula) : Formula := quantified .forAll v f

abbrev thereIs (v : Variable) (f : Formula) : Formula := quantified .thereIs v f

/-- The canonical text of a formula. -/
def chars : Formula → List Char
  | equality l r => l.chars ++ '=' :: r.chars
  | neg f => '~' :: f.chars
  | binary op l r => '[' :: l.chars ++ op.symbol :: r.chars ++ [']']
  | quantified q v f => q.symbol :: v.chars ++ ':' :: f.chars

def text (f : Formula) : String := String.ofList f.chars

instance : ToString Formula := ⟨text⟩

end Formula

end Typographical
