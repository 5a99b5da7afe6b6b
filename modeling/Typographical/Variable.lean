/-!
# Variables

A variable is a lowercase letter followed by primes. It has no identity beyond
its name, and variables are ordered by name: first by letter, then by the number
of primes, so `a < a' < a'' < b`.
-/

namespace Typographical

/-- A lowercase letter and a number of primes. -/
structure Variable where
  letter : Char
  primes : Nat
  lowercase : letter.isLower = true
  deriving DecidableEq

namespace Variable

def chars (v : Variable) : List Char := v.letter :: List.replicate v.primes '\''

def text (v : Variable) : String := String.ofList v.chars

instance : ToString Variable := ⟨text⟩

def ofChars? : List Char → Option Variable
  | [] => none
  | c :: rest =>
    if h : c.isLower = true then
      if rest.all (· = '\'') then some ⟨c, rest.length, h⟩ else none
    else none

structure Invalid where
  name : String
  deriving DecidableEq

def Invalid.message (e : Invalid) : String :=
  "invalid variable \"" ++ e.name ++ "\""

def parse (name : String) : Except Invalid Variable :=
  match ofChars? name.toList with
  | some v => .ok v
  | none => .error ⟨name⟩

def prime (v : Variable) : Variable := { v with primes := v.primes + 1 }

/-- The austere sequence `a, a', a'', ...`. -/
def austere (n : Nat) : Variable := ⟨'a', n, rfl⟩

instance : Ord Variable := ⟨compareLex (compareOn letter) (compareOn primes)⟩

instance : Std.TransOrd Variable :=
  inferInstanceAs (Std.TransCmp (compareLex (compareOn letter) (compareOn primes)))

instance : Std.LawfulEqOrd Variable where
  compare_self {v} := Std.ReflCmp.compare_self
  eq_of_compare {v w} h := by
    obtain ⟨hl, hp⟩ := compareLex_eq_eq.mp h
    have hl : v.letter = w.letter := Std.LawfulEqCmp.eq_of_compare hl
    have hp : v.primes = w.primes := Std.LawfulEqCmp.eq_of_compare hp
    cases v
    cases w
    simp_all

end Variable

end Typographical
