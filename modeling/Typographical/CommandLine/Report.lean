import Typographical.Collection.ParallelMap
import Typographical.Rendering
import Typographical.Script.Check
import Typographical.Script.Document
import Typographical.Terminal.Table

/-!
# Reports

What is printed about texts that cannot be read and about scripts that were
checked. A complaint about a text is shown with the line it is about and carets
below the place. A checked script is shown as a table of its theorems, followed
by what stopped it and by a line with the verdict.
-/

namespace Typographical

namespace CommandLine

open Terminal (Table Escape)

inductive Style where
  | canonical
  | latex
  | english
  deriving DecidableEq

def Style.render : Style → String → String
  | canonical, text => text
  | latex, text => Rendering.latex text
  | english, text => Rendering.english text

/-- A character repeated, if there is a positive number of them. -/
def repeated (count : Int) (c : Char) : String := .ofList (List.replicate count.toNat c)

/-- Where on its line a complaint points to, counted from zero. -/
def complaintOffset (e : SyntaxError) : Int := e.span.start - e.line.start

/-- How many characters a complaint points to: those of its span that are on the
line, and one at the least. -/
def complaintLength (e : SyntaxError) : Int :=
  max 1 (min (e.line.length - complaintOffset e) e.span.length)

def complaint (e : SyntaxError) : String :=
  let offset := complaintOffset e
  let length := complaintLength e
  e.file.name ++ ":" ++ toString e.line.number ++ ":" ++ toString (1 + offset) ++ "-" ++
    toString (1 + offset + length) ++ " " ++ e.message ++ "\n\n" ++
    e.line.text ++ "\n" ++ repeated offset ' ' ++ repeated length '^' ++ "\n"

/-- Drop a text from the end of another one, if it is there. -/
def dropSuffix (text suffix : String) : String :=
  if suffix.toList.isSuffixOf text.toList then
    .ofList (text.toList.take (text.toList.length - suffix.toList.length))
  else text

/-- An error by its wording. If it is about a text that cannot be read, this is
shown as a complaint, below what the wording says before it. -/
def errorReport (message : String) (cause : Option SyntaxError) : String :=
  match cause with
  | none => message ++ "\n"
  | some e =>
    let context := dropSuffix message e.text
    (if context = "" then "" else dropSuffix context ": " ++ "\n") ++ complaint e

structure ReportOptions where
  style : Style
  width : UInt64
  quiet : Bool
  coloured : Bool

/-- The widest that formulas are shown: two thirds of the line, computed in
64-bit words, but no less than twenty characters. -/
def formulaWidth (width : UInt64) : UInt64 := max 20 (width * 2 / 3)

def contents (texts : List String) : List ByteArray := texts.map String.toUTF8

/-- Append a step. The formulas of steps below a supposition stand out. -/
def addStep (options : ReportOptions) (t : Table) (index : Nat) (s : Step) :
    Except Table.Fault Table := do
  let formula := repeated (2 * s.depth) ' ' ++ options.style.render s.formula.text
  let (row, t) ← t.addRow (contents [toString index, formula, s.justification.annotation])
  if s.depth = 0 then return t
  else t.setEscape 1 row (Escape.plain.foreground Escape.cyan)

def addFailure (t : Table) : Option Script.Failure → Except Table.Fault Table
  | some (.step index rule _) => do
    let (row, t) ← t.addRow (contents [toString index, "", rule])
    t.setRowEscape row (Escape.plain.foreground Escape.red)
  | _ => return t

/-- A table without rows. Its formulas are cut off to leave room for the rest. -/
def emptyProof (options : ReportOptions) : Except Table.Fault Table := do
  let t := { Table.empty 3 with escapes := options.coloured }
  let t ← t.alignLeft 1 true
  let t ← t.alignLeft 2 true
  t.setMaximum 1 (formulaWidth options.width).toNat

def proofTable (options : ReportOptions) (d : Deduction) (failure : Option Script.Failure) :
    Except Table.Fault Table := do
  let t ← d.steps.zipIdx.foldlM (fun t (s, index) => addStep options t index s)
    (← emptyProof options)
  addFailure t failure

def tableText (t : Table) : Except Table.Fault String :=
  t.print.map Utf8.text

/-- A deduction under its title, and what stopped it if anything did. -/
def proofReport (options : ReportOptions) (d : Deduction) (failure : Option Script.Failure) :
    Except Table.Fault String := do
  let heading := if d.title = "" then "" else d.title ++ "\n"
  let table ← tableText (← proofTable options d failure)
  let error :=
    match failure with
    | none => ""
    | some e => errorReport e.message e.layers.complaint?
  return heading ++ table ++ error

inductive LoadError where
  | unreadable (reason : String)
  | invalid (file : String) (e : Script.ReadError)

def LoadError.message : LoadError → String
  | unreadable reason => "failed to read script: " ++ reason
  | invalid file e => file ++ ": " ++ e.message

structure Checked where
  script : Script
  deduction : Deduction
  failure : Option Script.Failure
  objection : Option Script.Objection

/-- Load and run a script, where `read` gives the text of a file or says why
there is none. -/
def checkFile (read : String → Except String String) (file : String) :
    Except LoadError Checked := do
  let text ← (read file).mapError .unreadable
  let script ← (Script.read text).mapError (.invalid file)
  let (d, failure) := script.run Axioms.peano
  return ⟨script, d, failure, script.verify failure⟩

def isAsIntended : Except LoadError Checked → Bool
  | .ok c => c.objection.isNone
  | .error _ => false

def isAborted : Except LoadError Checked → Bool
  | .error (.invalid _ e) => e = .aborted
  | _ => false

def verdict (options : ReportOptions) (good : Bool) (text : String) : String :=
  let escape :=
    if good then Escape.plain.foreground Escape.green
    else Escape.plain.bold.foreground Escape.red
  (if options.coloured then escape.wrap text else text) ++ "\n"

def scriptReport (options : ReportOptions) (file : String) :
    Except LoadError Checked → Except Table.Fault String
  | .error e => .ok (e.message ++ "\n")
  | .ok c =>
    if c.objection.isSome then do
      return (← proofReport options c.deduction c.failure) ++
        verdict options false (file ++ ": failed")
    else if c.script.flaw ≠ "" then do
      return (← proofReport options c.deduction c.failure) ++
        verdict options true (file ++ ": rejected as expected (" ++ c.script.flaw ++ ")")
    else do
      let proof ← if options.quiet then pure "" else proofReport options c.deduction none
      return proof ++
        verdict options true (file ++ ": ok (" ++ toString c.deduction.size ++ " steps)")

/-- Report on checked scripts one after the other, and say whether all of them turned
out as they should. One that did not keeps none from being reported on. -/
def reportAll (options : ReportOptions) (checked : List (String × Except LoadError Checked)) :
    Except Table.Fault (String × Bool) :=
  checked.foldlM (fun (printed, ok) (file, r) => do
    return (printed ++ (← scriptReport options file r), isAsIntended r && ok)) ("", true)

section

variable (check : String → Except LoadError Checked)

/-- Check scripts by one task each, which start and finish in a given order. No task
fails, so each gives a result. -/
def checkFiles (files : List String) (events : List ParallelMap.Event) :
    List (Option (String × Except LoadError Checked)) :=
  let work (file : String) : Option (String × Except LoadError Checked) × Option Empty :=
    (some (file, check file), none)
  (ParallelMap.mapBy work none files events).1

/-- Check scripts and report on them. All are checked before anything is printed, and
nothing is printed if reading one of them broke off. -/
def checkScripts (options : ReportOptions) (files : List String)
    (events : List ParallelMap.Event) : Except Table.Fault (Option (String × Bool)) := do
  let checked := (checkFiles check files events).filterMap id
  if checked.any (fun (_, r) => isAborted r) then return none
  return some (← reportAll options checked)

end

end CommandLine

end Typographical
