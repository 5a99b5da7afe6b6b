import Typographical.Formula

/-!
# Substitution

Free occurrences of a variable are replaced by a term, and occurrences of a
term by another one. A term below a quantifier that binds one of its variables
denotes something else, so it is neither found nor replaced there. Capture is
not looked for: whoever substitutes has to rule it out.
-/

namespace Typographical

namespace Formula

/-- Put `t` in place of the free occurrences of `v`. -/
def substitute (v : Variable) (t : Term) : Formula → Formula
  | equality l r => equality (l.replace v t) (r.replace v t)
  | neg f => neg (f.substitute v t)
  | binary op l r => binary op (l.substitute v t) (r.substitute v t)
  | quantified q w f => quantified q w (if w = v then f else f.substitute v t)

def replaceTerm (old new : Term) : Formula → Formula
  | equality l r => equality (l.replaceSubterm old new) (r.replaceSubterm old new)
  | neg f => neg (f.replaceTerm old new)
  | binary op l r => binary op (l.replaceTerm old new) (r.replaceTerm old new)
  | quantified q w f =>
    quantified q w (if old.containsVar w then f else f.replaceTerm old new)

def containsTerm (t : Term) : Formula → Bool
  | equality l r => l.containsSubterm t || r.containsSubterm t
  | neg f => f.containsTerm t
  | binary _ l r => l.containsTerm t || r.containsTerm t
  | quantified _ w f => !t.containsVar w && f.containsTerm t

end Formula

end Typographical
