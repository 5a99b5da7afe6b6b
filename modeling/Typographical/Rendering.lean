import Typographical.Text.Replacement

/-!
# Rendering

The canonical text of a term or formula can be typeset or read aloud by
replacing its symbols.
-/

namespace Typographical

namespace Rendering

def latexTable : List (Char × String) := [
  ('A', "\\forall "),
  ('E', "\\exists "),
  ('&', " \\land "),
  ('|', " \\lor "),
  ('>', " \\supset "),
  ('~', "\\lnot "),
  ('*', " \\cdot "),
  ('[', "\\langle "),
  (']', " \\rangle")]

def englishTable : List (Char × String) := [
  ('A', "for all "),
  ('E', "there exists "),
  (':', ", "),
  ('&', " and "),
  ('|', " or "),
  ('>', " implies "),
  ('~', "not "),
  ('=', " equals "),
  ('+', " plus "),
  ('*', " times "),
  ('S', "successor of "),
  ('0', "zero"),
  ('[', ""),
  (']', ""),
  ('(', ""),
  (')', "")]

def symbols (table : List (Char × String)) : ReplacementTable Char :=
  table.map (fun e => ([e.1], e.2.toList))

def latex (text : String) : String := .ofList ((symbols latexTable).apply text.toList)

def english (text : String) : String := .ofList ((symbols englishTable).apply text.toList)

end Rendering

end Typographical
