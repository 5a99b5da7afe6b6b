/-!
# Flags

A flag is a switch or takes a number. Switches can be given a value behind an
equals sign, and their letters can be run together; a number may also be the
next argument. Flags and operands may be mixed, and two hyphens end the flags.
If a flag is given several times the last one counts.
-/

namespace Typographical

namespace CommandLine

structure Flag where
  name : String
  letter : Option Char := none
  isSwitch : Bool := true
  deriving DecidableEq

inductive Setting where
  | switch (on : Bool)
  | number (n : UInt64)
  deriving DecidableEq

/-- Settings of flags, the latest first, and the other arguments in order. -/
structure Arguments where
  settings : List (String × Setting)
  operands : List String
  deriving DecidableEq

namespace Arguments

def isOn (a : Arguments) (name : String) : Bool := a.settings.lookup name = some (.switch true)

/-- The number that a flag was set to, else zero. -/
def number (a : Arguments) (name : String) : UInt64 :=
  match a.settings.lookup name with
  | some (.number n) => n
  | _ => 0

def addOperand (s : String) (a : Arguments) : Arguments :=
  { a with operands := s :: a.operands }

def addSetting (s : String × Setting) (a : Arguments) : Arguments :=
  { a with settings := a.settings ++ [s] }

end Arguments

inductive FlagError where
  | badForm
  | unknown
  | noValue
  | badValue
  deriving DecidableEq

def truth? (text : String) : Option Bool :=
  if ["1", "t", "T", "TRUE", "true", "True"].contains text then some true
  else if ["0", "f", "F", "FALSE", "false", "False"].contains text then some false
  else none

def digit? (base : Nat) (c : Char) : Option Nat :=
  let value :=
    if c.isDigit then some (c.toNat - '0'.toNat)
    else if 'a' ≤ c ∧ c ≤ 'f' then some (c.toNat - 'a'.toNat + 10)
    else if 'A' ≤ c ∧ c ≤ 'F' then some (c.toNat - 'A'.toNat + 10)
    else none
  value.filter (· < base)

/-- Read digits, each of which may have an underscore before it, except for the
first one where nothing precedes it. -/
def digitsFrom (base : Nat) : Nat → Bool → List Char → Option Nat
  | n, _, [] => some n
  | n, separable, '_' :: c :: rest =>
    if separable then (digit? base c).bind (fun d => digitsFrom base (n * base + d) true rest)
    else none
  | n, _, c :: rest => (digit? base c).bind (fun d => digitsFrom base (n * base + d) true rest)

/-- The number that a text spells, in base ten or, behind a zero, in the base
that a letter names or else in base eight. -/
def number? (text : String) : Option UInt64 :=
  let value :=
    match text.toList with
    | [] => none
    | '0' :: c :: d :: rest =>
      if c = 'x' || c = 'X' then digitsFrom 16 0 true (d :: rest)
      else if c = 'o' || c = 'O' then digitsFrom 8 0 true (d :: rest)
      else if c = 'b' || c = 'B' then digitsFrom 2 0 true (d :: rest)
      else digitsFrom 8 0 true (c :: d :: rest)
    | '0' :: rest => digitsFrom 8 0 true rest
    | cs => digitsFrom 10 0 false cs
  (value.filter (· < UInt64.size)).map UInt64.ofNat

def Flag.set (f : Flag) (text : String) : Except FlagError (String × Setting) :=
  let setting := if f.isSwitch then (truth? text).map .switch else (number? text).map .number
  match setting with
  | some s => .ok (f.name, s)
  | none => .error .badValue

def cutAtEquals (cs : List Char) : List Char × Option (List Char) :=
  match cs.dropWhile (· ≠ '=') with
  | [] => (cs, none)
  | _ :: value => (cs.takeWhile (· ≠ '='), some value)

/-- Read letters that are run together. A value counts for the letter before its
equals sign; an equals sign without one is no letter. -/
def letters (flags : List Flag) : List Char → Except FlagError (List (String × Setting))
  | [] => .ok []
  | c :: rest =>
    match flags.find? (fun f => f.letter = some c) with
    | none => .error .unknown
    | some f =>
      match rest with
      | '=' :: v :: value => do return [← f.set (.ofList (v :: value))]
      | rest => do
        let setting ← f.set "true"
        return (← letters flags rest) ++ [setting]

def Arguments.parse (flags : List Flag) : List String → Except FlagError Arguments
  | [] => .ok ⟨[], []⟩
  | s :: rest =>
    match s.toList with
    | ['-', '-'] => .ok ⟨[], rest⟩
    | '-' :: '-' :: name =>
      if name.head? = some '-' || name.head? = some '=' then .error .badForm
      else
        let (name, value) := cutAtEquals name
        match flags.find? (fun f => f.name = String.ofList name), value, rest with
        | none, _, _ => .error .unknown
        | some f, some value, rest => do
          let setting ← f.set (.ofList value)
          return (← parse flags rest).addSetting setting
        | some f, none, rest =>
          if f.isSwitch then do
            let setting ← f.set "true"
            return (← parse flags rest).addSetting setting
          else
            match rest with
            | [] => .error .noValue
            | value :: rest => do
              let setting ← f.set value
              return (← parse flags rest).addSetting setting
    | '-' :: c :: cs => do
      let settings ← letters flags (c :: cs)
      let a ← parse flags rest
      return { a with settings := a.settings ++ settings }
    | _ => do
      return (← parse flags rest).addOperand s

/-- Whether an argument is a flag whose value is the next argument. An unknown
flag counts as one. -/
def takesNext (flags : List Flag) (s : String) : Bool :=
  match s.toList with
  | '-' :: '-' :: name =>
    !name.contains '=' &&
      !flags.any (fun f => f.name = String.ofList name && f.isSwitch)
  | ['-', c] => c ≠ '=' && c.utf8Size = 1 && !flags.any (fun f => f.letter = some c && f.isSwitch)
  | _ => false

/-- The first operand among arguments, and the arguments without it. A flag that
would take all that is left ends the search. -/
def firstOperand (flags : List Flag) : List String → Option (String × List String)
  | [] => none
  | s :: rest =>
    if s = "--" then none
    else if takesNext flags s then
      match rest with
      | value :: next :: rest =>
        (firstOperand flags (next :: rest)).map (fun (w, more) => (w, s :: value :: more))
      | _ => none
    else if s ≠ "" && s.toList.head? ≠ some '-' then some (s, rest)
    else (firstOperand flags rest).map (fun (w, more) => (w, s :: more))

end CommandLine

end Typographical
