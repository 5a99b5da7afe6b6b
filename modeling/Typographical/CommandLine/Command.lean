import Typographical.CommandLine.Flags

/-!
# Commands

The commands of the executable, their flags, and the text that explains them.
-/

namespace Typographical

namespace CommandLine

/-- What the executable can be asked to do; without a command it explains
itself. -/
inductive Command where
  | overview
  | axioms
  | check
  | godel
  | parse
  | help
  deriving DecidableEq

namespace Command

def ofName? (name : String) : Option Command :=
  [("axioms", axioms), ("check", check), ("godel", godel), ("parse", parse),
    ("help", help)].lookup name

def verbose : Flag := { name := "verbose", letter := some 'v' }

/-- The flags that are known before a command has been found. -/
def commonFlags : List Flag := [{ name := "version" }, verbose]

def flags (c : Command) : List Flag :=
  let own : List Flag :=
    match c with
    | overview => [{ name := "version" }]
    | axioms => [{ name := "austere" }, { name := "english" }, { name := "latex" }]
    | check => [
        { name := "english" }, { name := "latex" }, { name := "no-colour" },
        { name := "quiet", letter := some 'q' }, { name := "watch" },
        { name := "width", isSwitch := false }]
    | godel => [{ name := "decode" }]
    | parse => [
        { name := "austere" }, { name := "english" }, { name := "godel" },
        { name := "latex" }, { name := "term" }]
    | help => []
  own ++ [{ name := "help", letter := some 'h' }, verbose]

def description : Command → String
  | overview | help =>
    "A proof checker (and general toolbox) for Typographical Number Theory,\n" ++
    "\ta formal system of first-order arithmetic over the natural numbers."
  | axioms => "List the five Peano axioms which every deduction starts from."
  | check =>
    "Check one or more proof scripts against the Peano axioms.\n" ++
    "\tA proof script is a YAML document listing the rule applications which make\n" ++
    "\tup a deduction.  Scripts declaring an expected error are checked to fail\n" ++
    "\twith exactly that kind of error."
  | godel =>
    "Arithmetise one or more formulas as Godel numbers, or (with --decode)\n" ++
    "\trecover the formulas which given Godel numbers encode."
  | parse =>
    "Parse one or more formulas (or terms) and display them in canonical form.\n" ++
    "\tMalformed formulas (e.g. those which quantify a variable twice) are reported\n" ++
    "\twith the offending subformula highlighted."

def usage : Command → String
  | overview | help =>
    "Usage:\n" ++
    "  tnt [flags]\n" ++
    "  tnt [command]\n" ++
    "\n" ++
    "Available Commands:\n" ++
    "  axioms      List the axioms.\n" ++
    "  check       Check one or more proof scripts.\n" ++
    "  completion  Generate the autocompletion script for the specified shell\n" ++
    "  godel       Arithmetise formulas as Godel numbers.\n" ++
    "  help        Help about any command\n" ++
    "  parse       Parse and display one or more formulas.\n" ++
    "\n" ++
    "Flags:\n" ++
    "  -h, --help      help for tnt\n" ++
    "  -v, --verbose   increase logging verbosity\n" ++
    "      --version   Report version of this executable\n" ++
    "\n" ++
    "Use \"tnt [command] --help\" for more information about a command.\n"
  | axioms =>
    "Usage:\n" ++
    "  tnt axioms [flags]\n" ++
    "\n" ++
    "Flags:\n" ++
    "      --austere   display closed axioms in austere form\n" ++
    "      --english   display axioms in English\n" ++
    "  -h, --help      help for axioms\n" ++
    "      --latex     display axioms in LaTeX\n" ++
    "\n" ++
    "Global Flags:\n" ++
    "  -v, --verbose   increase logging verbosity\n"
  | check =>
    "Usage:\n" ++
    "  tnt check [flags] script_file(s)\n" ++
    "\n" ++
    "Flags:\n" ++
    "      --english      display formulas in English\n" ++
    "  -h, --help         help for check\n" ++
    "      --latex        display formulas in LaTeX\n" ++
    "      --no-colour    disable coloured output\n" ++
    "  -q, --quiet        only report the outcome of successful scripts\n" ++
    "      --watch        re-check scripts whenever they change\n" ++
    "      --width uint   maximum width of output (defaults to terminal width)\n" ++
    "\n" ++
    "Global Flags:\n" ++
    "  -v, --verbose   increase logging verbosity\n"
  | godel =>
    "Usage:\n" ++
    "  tnt godel [flags] formula(s)\n" ++
    "\n" ++
    "Flags:\n" ++
    "      --decode   decode Godel numbers into formulas\n" ++
    "  -h, --help     help for godel\n" ++
    "\n" ++
    "Global Flags:\n" ++
    "  -v, --verbose   increase logging verbosity\n"
  | parse =>
    "Usage:\n" ++
    "  tnt parse [flags] formula(s)\n" ++
    "\n" ++
    "Flags:\n" ++
    "      --austere   display formulas in austere form\n" ++
    "      --english   display formulas in English\n" ++
    "      --godel     display the Godel number of each formula\n" ++
    "  -h, --help      help for parse\n" ++
    "      --latex     display formulas in LaTeX\n" ++
    "      --term      parse terms rather than formulas\n" ++
    "\n" ++
    "Global Flags:\n" ++
    "  -v, --verbose   increase logging verbosity\n"

end Command

end CommandLine

end Typographical
