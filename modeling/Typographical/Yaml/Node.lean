import Typographical.Yaml.Token

/-!
# Nodes

A document is a tree of scalars, sequences and mappings. A reference stands for
a node that was given a name elsewhere, possibly for one it lies in; so named
nodes are kept in a table and references point into it. References to the same
node are told apart by their places.
-/

namespace Typographical

namespace Yaml

/-- A part of a document, with the number of the line that it begins on and the
tag it was given, if any. -/
inductive Node where
  | scalar (line : Nat) (tag : Option String) (style : Style) (text : String)
  | sequence (line : Nat) (tag : Option String) (items : List Node)
  | mapping (line : Nat) (tag : Option String) (entries : List (Node × Node))
  | reference (line index : Nat) (name : String) (target : Nat)

namespace Node

def line : Node → Nat
  | scalar n .. | sequence n .. | mapping n .. | reference n .. => n

/-- What keys are told apart by: the kind of node, and the text of a scalar or
the name of a reference. -/
inductive Kind where
  | scalar
  | sequence
  | mapping
  | reference
  deriving DecidableEq

def kind : Node → Kind
  | scalar .. => .scalar
  | sequence .. => .sequence
  | mapping .. => .mapping
  | reference .. => .reference

/-- The text of a scalar or the name of a reference. -/
def text : Node → String
  | scalar _ _ _ t => t
  | reference _ _ name _ => name
  | _ => ""

end Node

/-- A tree and the nodes that were given names, under their numbers. -/
structure Document where
  root : Node
  named : List (Nat × Node)

end Yaml

end Typographical
