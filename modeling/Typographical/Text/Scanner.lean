/-!
# Scanners

A scanner looks at the front of a list and says how many items it matches,
where zero means no match. Scanners are combined in order, by repetition and by
choice. A scanner may report more items than there are, as the one for the end
of input does; a scanner that then has to continue behind the end overruns.
-/

namespace Typographical

universe u

/-- How many items at the front of a list match; none if the scan overruns. -/
abbrev Scanner (α : Type u) := List α → Option Nat

namespace Scanner

variable {α : Type u}

def unit [DecidableEq α] (items : List α) : Scanner α := fun input =>
  some (if items.isPrefixOf input then items.length else 0)

def within [LE α] [DecidableLE α] (lowest highest : α) : Scanner α
  | [] => some 0
  | a :: _ => some (if lowest ≤ a ∧ a ≤ highest then 1 else 0)

/-- The end of input, which counts as one item. -/
def endOfInput : Scanner α
  | [] => some 1
  | _ :: _ => some 0

/-- What the first scanner matches, followed by what the second one matches.
The second may match nothing. -/
def andThen (first second : Scanner α) : Scanner α := fun input =>
  match first input with
  | none => none
  | some 0 => some 0
  | some n =>
    if n ≤ input.length then (second (input.drop n)).map (n + ·) else none

def firstOf : List (Scanner α) → Scanner α
  | [], _ => some 0
  | s :: rest, input =>
    match s input with
    | none => none
    | some 0 => firstOf rest input
    | some n => some n

/-- Repeat a scanner while it matches and input is left, at most `rounds` times. -/
def repeated (s : Scanner α) : Nat → Scanner α
  | 0, _ => some 0
  | _ + 1, [] => some 0
  | rounds + 1, a :: rest =>
    match s (a :: rest) with
    | none => none
    | some 0 => some 0
    | some n => (repeated s rounds ((a :: rest).drop n)).map (n + ·)

/-- Zero or more matches. Each takes an item, so no more rounds are needed than
there are items. -/
def many (s : Scanner α) : Scanner α := fun input => repeated s input.length input

end Scanner

end Typographical
