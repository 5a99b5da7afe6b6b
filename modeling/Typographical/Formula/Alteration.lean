import Typographical.Formula

/-!
# Altering one subformula

Subformulas are visited in the order in which they begin in the text, nested
ones included. Of those that a change applies to, one is chosen by its number
and changed; it is not searched any further.
-/

namespace Typographical

namespace Formula

/-- How many subformulas have a property. -/
def countMatches (p : Formula → Bool) : Formula → Nat
  | equality l r => (p (equality l r)).toNat
  | neg f => (p (neg f)).toNat + f.countMatches p
  | binary op l r => (p (binary op l r)).toNat + l.countMatches p + r.countMatches p
  | quantified q v f => (p (quantified q v f)).toNat + f.countMatches p

/-- Change the subformula number `n` among those that `change` applies to. If
there are too few, report how far the number goes beyond them. -/
def alterFrom (change : Formula → Option Formula) : Formula → Nat → Except Nat Formula
  | equality l r, n =>
    match change (equality l r), n with
    | some g, 0 => .ok g
    | some _, n + 1 => .error n
    | none, n => .error n
  | neg f, n =>
    match change (neg f), n with
    | some g, 0 => .ok g
    | some _, n + 1 => (f.alterFrom change n).map neg
    | none, n => (f.alterFrom change n).map neg
  | quantified q v f, n =>
    match change (quantified q v f), n with
    | some g, 0 => .ok g
    | some _, n + 1 => (f.alterFrom change n).map (quantified q v)
    | none, n => (f.alterFrom change n).map (quantified q v)
  | binary op l r, n =>
    let descend (n : Nat) : Except Nat Formula :=
      match l.alterFrom change n with
      | .ok l' => .ok (binary op l' r)
      | .error m => (r.alterFrom change m).map (binary op l)
    match change (binary op l r), n with
    | some g, 0 => .ok g
    | some _, n + 1 => descend n
    | none, n => descend n

def alterNth? (change : Formula → Option Formula) (n : Nat) (f : Formula) : Option Formula :=
  match f.alterFrom change n with
  | .ok g => some g
  | .error _ => none

end Formula

end Typographical
