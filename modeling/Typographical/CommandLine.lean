import Typographical.Arithmetization
import Typographical.CommandLine.Command
import Typographical.CommandLine.Report

/-!
# The command line

Arguments and files in, text and exit code out. Nothing here reads or prints:
the text of a file is asked for by its name. Arguments are taken one after the
other, and what was printed before a failure stays printed.
-/

namespace Typographical

namespace CommandLine

open Terminal (Table)

structure Outcome where
  printed : String
  exitCode : UInt32
  deriving DecidableEq

namespace Outcome

def success (printed : String) : Outcome := ⟨printed, 0⟩

/-- Some more text in front of what is printed. -/
def after (printed : String) (o : Outcome) : Outcome := { o with printed := printed ++ o.printed }

end Outcome

def styleOf (a : Arguments) : Style :=
  if a.isOn "latex" then .latex else if a.isOn "english" then .english else .canonical

/-- Do something with each operand, up to the first that fails. -/
def forEach (act : String → Except String String) : List String → Outcome
  | [] => .success ""
  | s :: rest =>
    match act s with
    | .error printed => ⟨printed, 2⟩
    | .ok printed => (forEach act rest).after printed

def readFormula (text : String) : Except String Formula :=
  match Formula.read (.ofString "<input>" text) with
  | .ok (f, _) => .ok f
  | .error e => .error (complaint e.located)

def readTerm (text : String) : Except String Term :=
  (Term.parse text).mapError complaint

def runAxioms (a : Arguments) : Except Table.Fault Outcome := do
  let shown (f : Formula) : Formula := if a.isOn "austere" then f.closure.austere else f
  let table ← (Table.empty 2).alignLeft 1 true
  let table ← table.addRows (Axioms.peano.mapIdx (fun i f =>
    contents [toString (i + 1), (styleOf a).render (shown f).text]))
  return .success (← tableText table)

def runParse (a : Arguments) : Outcome :=
  forEach (fun s => do
    let text ←
      if a.isOn "term" then (readTerm s).map Term.text
      else (readFormula s).map (fun f => if a.isOn "austere" then f.austere.text else f.text)
    let number := if a.isOn "godel" then toString (Arithmetization.encode text) ++ "\n" else ""
    return (styleOf a).render text ++ "\n" ++ number) a.operands

def runGodel (a : Arguments) : Outcome :=
  forEach (fun s =>
    if a.isOn "decode" then
      match (Arithmetization.parse s).bind Arithmetization.decode with
      | .ok text => .ok (text ++ "\n")
      | .error e => .error (s ++ ": " ++ e.message ++ "\n")
    else do
      let f ← readFormula s
      return toString (Arithmetization.encode f.text) ++ "\n") a.operands

/-- A terminal that is printed to. Its width may not be known. -/
structure Screen where
  width : Option UInt64 := none

/-- The width of a line where nothing else is said. -/
def defaultWidth : UInt64 := 120

/-- How the flags ask for scripts to be shown. Only a terminal is sent colours. -/
def reportOptions (screen : Option Screen) (a : Arguments) : ReportOptions where
  style := styleOf a
  width :=
    if a.number "width" = 0 then (screen.bind Screen.width).getD defaultWidth
    else a.number "width"
  quiet := a.isOn "quiet"
  coloured := screen.isSome && !a.isOn "no-colour"

def runCheck (read : String → Except String String) (screen : Option Screen) (a : Arguments) :
    Except Table.Fault Outcome := do
  let events := ParallelMap.inOrder a.operands.length
  match ← checkScripts (checkFile read) (reportOptions screen a) a.operands events with
  | none => return ⟨"", 2⟩
  | some (printed, ok) => return ⟨printed, if ok then 0 else 1⟩

/-- Explain a command that was called without operands. -/
def unlessEmpty (c : Command) (a : Arguments) (run : Except Table.Fault Outcome) :
    Except Table.Fault Outcome :=
  if a.operands.isEmpty then .ok ⟨c.usage ++ "\n", 1⟩ else run

def runCommand (read : String → Except String String) (screen : Option Screen) (c : Command)
    (a : Arguments) : Except Table.Fault Outcome :=
  match c with
  | .overview =>
    if a.isOn "version" then .ok (.success "tnt (unknown version)\n")
    else .ok (.success (c.usage ++ "\n"))
  | .help =>
    let topic := (a.operands.head?.bind Command.ofName?).getD .overview
    .ok (.success (topic.description ++ "\n\n" ++ topic.usage))
  | .axioms => runAxioms a
  | .check => unlessEmpty c a (runCheck read screen a)
  | .godel => unlessEmpty c a (.ok (runGodel a))
  | .parse => unlessEmpty c a (.ok (runParse a))

/-- The command that arguments ask for and the arguments without its name; none
if there is no such command. -/
def findCommand (args : List String) : Option (Command × List String) :=
  match firstOperand Command.commonFlags args with
  | none => some (.overview, args)
  | some (name, rest) => (Command.ofName? name).map (·, rest)

/-- What the executable prints for given arguments, and its exit code. Refused
arguments are complained about elsewhere. Unless something else is said, nothing
is printed to a terminal. -/
def run (read : String → Except String String) (args : List String)
    (screen : Option Screen := none) : Outcome :=
  match findCommand args with
  | none => ⟨"", 1⟩
  | some (c, args) =>
    match Arguments.parse c.flags args with
    | .error _ => ⟨"", 1⟩
    | .ok a =>
      if a.isOn "help" then .success (c.description ++ "\n\n" ++ c.usage)
      else
        match runCommand read screen c a with
        | .ok o => o
        | .error _ => ⟨"", 2⟩

end CommandLine

end Typographical
