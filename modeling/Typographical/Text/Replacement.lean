import Typographical.Text.Utf8

/-!
# Replacing symbols

Symbols are replaced in one pass from left to right, so what is put in is never
replaced itself. Where several symbols match, the one that stands first in the
table counts. A symbol without items matches once at every place, the end
included, and takes nothing away.
-/

namespace Typographical

universe u

abbrev ReplacementTable (α : Type u) := List (List α × List α)

namespace ReplacementTable

variable {α : Type u} [DecidableEq α]

/-- The first symbol that a text begins with; empty symbols only if allowed. -/
def find? (table : ReplacementTable α) (allowEmpty : Bool) (text : List α) :
    Option (List α × List α) :=
  List.find? (fun e => e.1.isPrefixOf text && (allowEmpty || !e.1.isEmpty)) table

/-- What is written at a place, and how many items of the text it replaces. -/
def insertion (table : ReplacementTable α) (text : List α) : List α × Nat :=
  match table.find? true text with
  | none => ([], 0)
  | some ([], inserted) =>
    match table.find? false text with
    | none => (inserted, 0)
    | some (symbol, replacement) => (inserted ++ replacement, symbol.length)
  | some (symbol, replacement) => (replacement, symbol.length)

/-- Replace symbols in a text of which the first items were replaced before. -/
def replaceAfter (table : ReplacementTable α) : Nat → List α → List α
  | 0, [] => (table.insertion []).1
  | _ + 1, [] => []
  | n + 1, _ :: rest => table.replaceAfter n rest
  | 0, a :: rest =>
    let (written, replaced) := table.insertion (a :: rest)
    if replaced = 0 then written ++ a :: table.replaceAfter 0 rest
    else written ++ table.replaceAfter (replaced - 1) rest

def apply (table : ReplacementTable α) (text : List α) : List α := table.replaceAfter 0 text

end ReplacementTable

/-- Replace symbols in the bytes of a text. An empty symbol can thereby break
characters apart; the pieces are read as replacement characters. -/
def replaceSymbols (table : List (String × String)) (text : String) : String :=
  let bytes : ReplacementTable UInt8 :=
    table.map (fun e => (e.1.toUTF8.toList, e.2.toUTF8.toList))
  Utf8.text (bytes.apply text.toUTF8.toList).toByteArray

end Typographical
