import Typographical.Script
import Typographical.Text.Quoted
import Typographical.Text.Utf8
import Typographical.Yaml.Document
import Typographical.Yaml.Value

/-!
# Reading scripts

A script is written as a mapping of its fields, where the steps are a sequence
of mappings. All parts that do not fit are collected, in the order in which they
are met. Whatever is left empty keeps its initial value, and empty items of
sequences are left out.

A part is read by what it has to become, so reading follows the fields of a
script and not the depth of the document. Only mappings that are merged into
others can be nested without end, through references; that a reference leads to
itself is a fault. So is a document that consists almost only of references.
-/

namespace Typographical

namespace Script

/-- What a part of a document has to become. -/
inductive Shape where
  | text
  | number
  | numbers
  | step
  | steps
  | script
  deriving DecidableEq

def Shape.label : Shape → String
  | text => "string"
  | number => "uint"
  | numbers => "[]uint"
  | step => "script.Step"
  | steps => "[]script.Step"
  | script => "script.Script"

inductive Mismatch where
  | unknownField (line : Nat) (name : String) (shape : Shape)
  | repeatedField (line : Nat) (name : String) (shape : Shape)
  | repeatedKey (line : Nat) (key : String) (first : Nat)
  | wrongNode (line : Nat) (tag text : String) (shape : Shape)
  deriving DecidableEq

/-- A text of more than ten bytes is cut after seven. -/
def excerpt (text : String) : String :=
  let bytes := text.toUTF8
  if 10 < bytes.size then Utf8.text (bytes.extract 0 7) ++ "..." else text

def Mismatch.message : Mismatch → String
  | unknownField line name shape =>
    "line " ++ toString line ++ ": field " ++ name ++ " not found in type " ++ shape.label
  | repeatedField line name shape =>
    "line " ++ toString line ++ ": field " ++ name ++ " already set in type " ++ shape.label
  | repeatedKey line key first =>
    "line " ++ toString line ++ ": mapping key " ++ Quoted.encode key ++
      " already defined at line " ++ toString first
  | wrongNode line tag text shape =>
    let shown :=
      if tag = "!!seq" || tag = "!!map" then text else " `" ++ excerpt text ++ "`"
    "line " ++ toString line ++ ": cannot unmarshal " ++ tag ++ shown ++ " into " ++ shape.label

/-- What has been found out on the way: the mismatches, last one first, how many
parts were read, how many of these through references, and the places of the
references that are being followed. -/
structure Progress where
  mismatches : List Mismatch
  parts : Nat
  borrowed : Nat
  followed : List Nat

namespace Progress

def start : Progress := ⟨[], 0, 0, []⟩

def step (p : Progress) : Progress :=
  { p with
    parts := p.parts + 1
    borrowed := if p.followed.isEmpty then p.borrowed else p.borrowed + 1 }

/-- Whether too many parts were read through references: more than 99 of 100,
and less the more parts there are, down to one of ten. -/
def isExcessive (p : Progress) : Bool :=
  100 < p.borrowed && 1000 < p.parts &&
    if p.parts ≤ 400000 then 99 * p.parts < 100 * p.borrowed
    else if 4000000 ≤ p.parts then p.parts < 10 * p.borrowed
    else p.parts * (99 * 3600000 - 89 * (p.parts - 400000)) < 360000000 * p.borrowed

end Progress

/-- Why reading stops at once: because of a fault, or because a collection was
used where names are compared. -/
inductive Stop where
  | fault (f : Yaml.Fault)
  | collectionKey

abbrev Decode := StateT Progress (Except Stop)

namespace Decode

/-- Stop with a problem of the document as a whole. -/
def stop {α : Type} (p : Yaml.Problem) : Decode α := throw (.fault (.overall p))

def note (m : Mismatch) : Decode Unit :=
  modify (fun p => { p with mismatches := m :: p.mismatches })

def refuse {α : Type} (m : Mismatch) : Decode (Option α) := do
  note m
  return none

def count : Decode Unit := do
  modify Progress.step
  if (← get).isExcessive then stop .manyReferences

variable (d : Yaml.Document)

/-- Read a part, or what it refers to. -/
def enter {α : Type} (n : Yaml.Node) (read : Yaml.Node → Decode α) : Decode α := do
  count
  match n with
  | .reference _ index name target =>
    if (← get).followed.contains index then stop (.selfReference name)
    modify (fun p => { p with followed := index :: p.followed })
    count
    let a ← read ((d.named.lookup target).getD n)
    modify (fun p => { p with followed := p.followed.tail })
    return a
  | n => read n

/-- The tag that a collection was given, or the one that it has anyway. -/
def collectionTag (tag : Option String) (standard : String) : String :=
  ((tag.filter (· ≠ "!")).map Yaml.shortTag).getD standard

/-- The keys that are equal to an earlier one. -/
def repeatedKeys : List Yaml.Node → List Mismatch
  | [] => []
  | k :: rest =>
    (rest.filter (fun l => l.kind = k.kind && l.text = k.text)).map
      (fun l => .repeatedKey l.line l.text k.line) ++ repeatedKeys rest

def distinctKeys (entries : List (Yaml.Node × Yaml.Node)) : Decode Bool := do
  let repeated := repeatedKeys (entries.map Prod.fst)
  repeated.forM note
  return repeated.isEmpty

def value (tag : Option String) (style : Yaml.Style) (text : String) : Decode Yaml.Value :=
  match Yaml.Value.ofScalar tag style text with
  | .error f => throw (.fault f)
  | .ok v => return v

/-- Read a scalar; refuse any collection. -/
def scalarOnly {α : Type} (shape : Shape) (n : Yaml.Node)
    (read : Nat → Yaml.Value → String → Decode (Option α)) : Decode (Option α) := do
  match n with
  | .scalar line tag style text => read line (← value tag style text) text
  | .sequence line tag _ => refuse (.wrongNode line (collectionTag tag "!!seq") "" shape)
  | .mapping line tag entries =>
    if ← distinctKeys entries then
      refuse (.wrongNode line (collectionTag tag "!!map") "" shape)
    else return none
  | .reference .. => return none

/-- A text is any scalar as it is spelled, or the bytes that it stands for. -/
def text (n : Yaml.Node) : Decode (Option String) :=
  enter d n (fun n => scalarOnly .text n (fun _ v text =>
    match v with
    | .null => return none
    | .text _ t => return some t
    | _ => return some text))

/-- A number is a word, or a fraction that is cut down to one. -/
def number (n : Yaml.Node) : Decode (Option UInt64) :=
  enter d n (fun n => scalarOnly .number n (fun line v text =>
    let wrong := refuse (.wrongNode line v.tag text .number)
    match v with
    | .null => return none
    | .integer i => if 0 ≤ i then return some (.ofNat i.toNat) else wrong
    | .float x =>
      match x.word? with
      | some w => return some w
      | none => wrong
    | _ => wrong))

/-- Read each item of a sequence, leaving out those without a result. -/
def items {α : Type} (shape : Shape) (read : Yaml.Node → Decode (Option α)) (n : Yaml.Node) :
    Decode (Option (List α)) :=
  enter d n (fun n =>
    match n with
    | .sequence _ _ ns => do return some ((← ns.mapM read).filterMap id)
    | other =>
      scalarOnly shape other (fun line v text =>
        match v with
        | .null => return some []
        | _ => refuse (.wrongNode line v.tag text shape)))

abbrev Fields (α : Type) := String → Option (α → Yaml.Node → Decode α)

/-- Read the entries of a mapping one after the other, where the fields named in
`seen` have been set before. In a mapping that is merged into another one, the
names in `taken` are passed over; the result has all names that are taken. -/
def entries {α : Type} (shape : Shape) (fields : Fields α) :
    List (Yaml.Node × Yaml.Node) → List String → Option (List String) → α →
      Decode (Option (List String) × α)
  | [], _, taken, a => return (taken, a)
  | (k, v) :: rest, seen, taken, a => do
    if k.isMergeKey then entries shape fields rest seen taken a
    else
      match ← text d k with
      | none => entries shape fields rest seen taken a
      | some name =>
        if taken.any (·.contains name) then entries shape fields rest seen taken a
        else
          let taken := taken.map (name :: ·)
          match fields name with
          | none =>
            note (.unknownField k.line name shape)
            entries shape fields rest seen taken a
          | some set =>
            if seen.contains name then
              note (.repeatedField k.line name shape)
              entries shape fields rest seen taken a
            else entries shape fields rest (name :: seen) taken (← set a v)

/-- The name that a key is known by when mappings are merged, if it is a text.
A collection cannot be one. -/
def keyName (n : Yaml.Node) : Decode (Option String) :=
  enter d n (fun n => do
    match n with
    | .scalar _ tag style text =>
      match ← value tag style text with
      | .text _ t => return some t
      | _ => return none
    | .mapping _ _ es => if ← distinctKeys es then throw .collectionKey else return none
    | _ => throw .collectionKey)

/-- Whether mappings can be merged from a node: it is one, or a reference to
one. -/
def isMergeable (n : Yaml.Node) : Bool :=
  match n with
  | .mapping .. => true
  | .reference _ _ _ target =>
    match d.named.lookup target with
    | some (.mapping ..) => true
    | _ => false
  | _ => false

mutual

/-- Set fields from a mapping, and then from those that are merged into it. -/
def blend {α : Type} (shape : Shape) (fields : Fields α) :
    Nat → Option (List String) → List (Yaml.Node × Yaml.Node) → α →
      Decode (Option (List String) × α)
  | 0, taken, _, a => return (taken, a)
  | fuel + 1, taken, es, a => do
    if !(← distinctKeys es) then return (taken, a)
    let (taken, a) ← entries d shape fields es [] taken a
    match es.find? (fun e => e.1.isMergeKey) with
    | none => return (taken, a)
    | some (_, source) =>
      let names ←
        match taken with
        | some names => pure names
        | none => do
          let names ← es.mapM (fun e => keyName d e.1)
          pure (names.filterMap id)
      let (names, a) ← mergeAll shape fields fuel source names a
      return (taken.map (fun _ => names), a)

/-- Merge from a mapping, or from each of a sequence of mappings. -/
def mergeAll {α : Type} (shape : Shape) (fields : Fields α) :
    Nat → Yaml.Node → List String → α → Decode (List String × α)
  | 0, _, names, a => return (names, a)
  | fuel + 1, source, names, a =>
    match source with
    | .sequence _ _ ns =>
      ns.foldlM (fun (names, a) n => mergeOne shape fields fuel n names a) (names, a)
    | n => mergeOne shape fields fuel n names a

def mergeOne {α : Type} (shape : Shape) (fields : Fields α) :
    Nat → Yaml.Node → List String → α → Decode (List String × α)
  | 0, _, names, a => return (names, a)
  | fuel + 1, n, names, a => do
    if !isMergeable d n then stop .badMerge
    enter d n (fun n => do
      match n with
      | .mapping _ _ es =>
        let (taken, a) ← blend shape fields fuel (some names) es a
        return (taken.getD names, a)
      | _ => return (names, a))

end

/-- Read a mapping of fields, beginning with an initial value. -/
def record {α : Type} (fuel : Nat) (shape : Shape) (fields : Fields α) (initial : α)
    (n : Yaml.Node) : Decode (Option α) :=
  enter d n (fun n => do
    match n with
    | .mapping _ _ es =>
      let (_, a) ← blend d shape fields fuel none es initial
      return some a
    | other =>
      scalarOnly shape other (fun line v text =>
        match v with
        | .null => return none
        | _ => refuse (.wrongNode line v.tag text shape)))

/-- A field that is changed by what is read, if there is something. -/
def setting {α β : Type} (read : Yaml.Node → Decode (Option β)) (change : α → β → α) :
    Option (α → Yaml.Node → Decode α) :=
  some (fun a n => do
    match ← read n with
    | some b => return change a b
    | none => return a)

def stepFields : Fields Step := fun name =>
  if name = "rule" then setting (text d) (fun s t => { s with rule := t })
  else if name = "formula" then setting (text d) (fun s t => { s with formula := t })
  else if name = "from" then
    setting (items d .numbers (number d)) (fun s ns => { s with references := ns })
  else if name = "var" then setting (text d) (fun s t => { s with variableName := t })
  else if name = "term" then setting (text d) (fun s t => { s with term := t })
  else if name = "occurrence" then setting (number d) (fun s n => { s with occurrence := n })
  else if name = "side" then setting (text d) (fun s t => { s with side := t })
  else if name = "expect" then setting (text d) (fun s t => { s with expectation := t })
  else none

def scriptFields (fuel : Nat) : Fields Script := fun name =>
  if name = "title" then setting (text d) (fun s t => { s with title := t })
  else if name = "theorem" then setting (text d) (fun s t => { s with goal := t })
  else if name = "error" then setting (text d) (fun s t => { s with flaw := t })
  else if name = "steps" then
    setting (items d .steps (record d fuel .step (stepFields d) {}))
      (fun s ss => { s with steps := ss })
  else none

/-- A whole script. The document itself counts as a part. -/
def script (fuel : Nat) : Decode (Option Script) := do
  count
  record d fuel .script (scriptFields d fuel) {} d.root

end Decode

inductive ReadError where
  | broken (f : Yaml.Fault)
  | nothing
  | mismatched (first : Mismatch) (more : List Mismatch)
  | aborted
  deriving DecidableEq

def ReadError.message (e : ReadError) : String :=
  "failed to parse script: " ++
    match e with
    | .broken f => f.message
    | .nothing => "EOF"
    | .mismatched first more =>
      "yaml: unmarshal errors:" ++
        String.join ((first :: more).map (fun m => "\n  " ++ m.message))
    | .aborted => ""

/-- Read a script. An empty document is an empty script, but there has to be a
document. Merging descends through a tree, and from a reference at most once
through each of the others, so the square of the length of the text bounds its
depth. -/
def read (text : String) : Except ReadError Script :=
  match Yaml.Document.parse text with
  | .error f => .error (.broken f)
  | .ok none => .error .nothing
  | .ok (some d) =>
    let fuel := 4 * (text.length + 1) * (text.length + 1)
    match (Decode.script d fuel).run .start with
    | .error (.fault f) => .error (.broken f)
    | .error .collectionKey => .error .aborted
    | .ok (s, p) =>
      match p.mismatches.reverse with
      | m :: more => .error (.mismatched m more)
      | [] => .ok (s.getD {})

end Script

end Typographical
