/-!
# Bounded stacks

A stack holds its items top first and never more than its limit. Offsets and
limits are 64-bit words, and the position of an item is computed in signed
64-bit arithmetic: an offset from the upper half of the word range is a
negative distance from the top, so it may point past it.
-/

namespace Typographical

universe u

/-- Items, top first, and the largest number of them. -/
structure Stack (α : Type u) where
  items : List α
  limit : UInt64
  deriving DecidableEq

namespace Stack

inductive Fault where
  | full
  | empty
  | belowBottom
  | pastTop
  deriving DecidableEq

variable {α : Type u}

def bounded (limit : UInt64) : Stack α := ⟨[], limit⟩

/-- A stack limited by the word range only. -/
def unbounded : Stack α := bounded (0 - 1)

def size (s : Stack α) : Nat := s.items.length

def isEmpty (s : Stack α) : Bool := s.items.isEmpty

def isFull (s : Stack α) : Bool := s.limit.toNat ≤ s.size

/-- Where the item at a given offset from the top lies, counted from the bottom. -/
def positionOf (s : Stack α) (offset : UInt64) : Int64 :=
  Int64.ofNat s.size - offset.toInt64 - 1

/-- The item at a given offset from the top. -/
def peek (s : Stack α) (offset : UInt64) : Except Fault α :=
  if s.positionOf offset < 0 then .error .belowBottom
  else
    match s.items.reverse[(s.positionOf offset).toNatClampNeg]? with
    | some a => .ok a
    | none => .error .pastTop

def push (s : Stack α) (a : α) : Except Fault (Stack α) :=
  if s.isFull then .error .full else .ok ⟨a :: s.items, s.limit⟩

def pop (s : Stack α) : Except Fault (α × Stack α) :=
  match s.items with
  | [] => .error .empty
  | a :: items => .ok (a, ⟨items, s.limit⟩)

end Stack

def Stack.Fault.message : Stack.Fault → String
  | .full => "cannot push onto full stack"
  | .empty => "cannot pop from empty stack"
  | .belowBottom => "peek out-of-bounds"
  | .pastTop => "peek past the top"

end Typographical
