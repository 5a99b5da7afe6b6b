import Typographical.Text.Source

/-!
# Source maps

A source map remembers which span of a file a node came from. The first span
registered for a node stays; later ones are ignored.
-/

namespace Typographical

universe u

structure SourceMap (κ : Type u) where
  file : SourceFile
  entries : List (κ × Span)

namespace SourceMap

variable {κ : Type u}

def empty (file : SourceFile) : SourceMap κ := ⟨file, []⟩

variable [DecidableEq κ]

def find? (m : SourceMap κ) (key : κ) : Option Span :=
  (m.entries.find? (fun e => e.1 = key)).map Prod.snd

def contains (m : SourceMap κ) (key : κ) : Bool := (m.find? key).isSome

/-- Register a span unless the key has one already. -/
def put (m : SourceMap κ) (key : κ) (span : Span) : SourceMap κ :=
  if m.contains key then m else { m with entries := m.entries ++ [(key, span)] }

def unknown [ToString κ] (key : κ) : String :=
  "invalid source map key: " ++ toString key

/-- A complaint about the span of a key, or about the whole file. -/
def syntaxError (m : SourceMap κ) (key : κ) (message : String) : SyntaxError :=
  ⟨m.file, (m.find? key).getD m.file.whole, message⟩

end SourceMap

end Typographical
