import Typographical.Text.Utf8
import Typographical.Yaml.Scalar

/-!
# Tokens

The tokens of a document, and those of them that are read on their own:
directives, anchors and tags.

A tag is a text of bytes: a percent sign and two digits stand for one byte, and
such bytes have to come in the number that the first of them announces.
-/

namespace Typographical

namespace Yaml

inductive Style where
  | plain
  | quoted
  | block
  deriving DecidableEq

inductive TokenKind where
  | streamStart
  | streamEnd
  | version (major minor : Nat)
  | tagHandle (handle stem : String)
  | documentStart
  | documentEnd
  | blockSequence
  | blockMapping
  | blockEnd
  | flowSequence
  | flowSequenceEnd
  | flowMapping
  | flowMappingEnd
  | entry
  | flowEntry
  | key
  | value
  | anchor (name : String)
  | reference (name : String)
  | tag (handle suffix : String)
  | scalar (style : Style) (text : String)
  deriving DecidableEq

structure Token where
  kind : TokenKind
  start : Mark
  stop : Mark

/-- Read a number of a version, which has one or two digits. -/
def versionNumber (start : Mark) : Read Nat := do
  Read.demand 1
  let c ← get
  let digits := c.rest.takeWhile Char.isDigit
  if digits.isEmpty then Read.fail .noVersionNumber start
  let shown := digits.take 2
  Read.skips shown.length
  Read.demand 1
  if 2 < digits.length then Read.fail .longVersionNumber start
  return shown.foldl (fun n a => n * 10 + (a.toNat - '0'.toNat)) 0

/-- Read the handle of a tag. Where a handle is defined it has to be complete. -/
def tagHandle (defining : Bool) (start : Mark) : Read (List Char) := do
  Read.demand 1
  if !(← get).isAt '!' then Read.fail .noTagMark start
  Read.skip
  let name ← Read.span isWordChar
  if (← get).isAt '!' then
    Read.skip
    return '!' :: name ++ ['!']
  if defining && !name.isEmpty then Read.fail .noTagMark start
  return '!' :: name

/-- How many bytes a character has whose first byte is given. -/
def octetCount? (b : UInt8) : Option Nat :=
  if b < 0x80 then some 1
  else if b < 0xc0 then none
  else if b < 0xe0 then some 2
  else if b < 0xf0 then some 3
  else if b < 0xf8 then some 4
  else none

def isLaterOctet (b : UInt8) : Bool := 0x80 ≤ b && b < 0xc0

/-- Read a byte that is written as a percent sign and two digits. -/
def octet (start : Mark) : Read UInt8 := do
  Read.demand 3
  match (← get).rest with
  | '%' :: a :: b :: _ =>
    match hexValue? a, hexValue? b with
    | some high, some low =>
      return .ofNat (16 * high + low)
    | _, _ => Read.fail .noOctet start
  | _ => Read.fail .noOctet start

/-- Read the later bytes of a character, which are a number of them, behind
`bytes`. -/
def laterOctets (start : Mark) : Nat → List UInt8 → Read (List UInt8)
  | 0, bytes => return bytes
  | count + 1, bytes => do
    let b ← octet start
    if !isLaterOctet b then Read.fail .badLaterOctet start
    Read.skips 3
    laterOctets start count (b :: bytes)

def octets (start : Mark) (bytes : List UInt8) : Read (List UInt8) := do
  let b ← octet start
  match octetCount? b with
  | none => Read.fail .badFirstOctet start
  | some count =>
    Read.skips 3
    laterOctets start (count - 1) (b :: bytes)

def isTagChar (a : Char) : Bool :=
  isWordChar a || ";/?:@&=+$,.!~*'()[]".toList.contains a

/-- Read the rest of a tag, behind `bytes`, which stand last byte first. Each
round reads a character. -/
def tagBytesFrom (start : Mark) : Nat → List UInt8 → Read (List UInt8)
  | 0, bytes => return bytes
  | rounds + 1, bytes => do
    match (← get).head? with
    | none => return bytes
    | some a =>
      if a = '%' then
        let bytes ← octets start bytes
        Read.demand 1
        tagBytesFrom start rounds bytes
      else if isTagChar a then
        Read.skip
        Read.demand 1
        tagBytesFrom start rounds (a.toUInt8 :: bytes)
      else return bytes

/-- Read the part of a tag behind its handle, or behind the part `begun`. -/
def tagSuffix (begun : List Char) (start : Mark) : Read String := do
  Read.demand 1
  let c ← get
  let bytes ← tagBytesFrom start c.size ((begun.drop 1).map Char.toUInt8).reverse
  if begun.isEmpty && (← get).mark = c.mark then Read.fail .noTag start
  return Utf8.text ⟨bytes.reverse.toArray⟩

def versionDirective (start : Mark) : Read TokenKind := do
  let _ ← Read.span isBlank
  let major ← versionNumber start
  if !(← get).isAt '.' then Read.fail .badVersionNumber start
  Read.skip
  return .version major (← versionNumber start)

def tagDirective (start : Mark) : Read TokenKind := do
  let _ ← Read.span isBlank
  let handle ← tagHandle true start
  Read.demand 1
  if !(← get).head?.any isBlank then Read.fail .noTagSpace start
  let _ ← Read.span isBlank
  let stem ← tagSuffix [] start
  if !isGap (← get).head? then Read.fail .textAfterTag start
  return .tagHandle (.ofList handle) stem

def directiveEnd (start : Mark) : Read Unit := do
  let _ ← Read.span isBlank
  if (← get).isAt '#' then
    let _ ← Read.line
  if !(← get).atLineEnd then Read.fail .textAfterHeader start
  if (← get).atBreak then
    Read.demand 2
    let _ ← Read.lineBreak

/-- Read a directive, beginning at its percent sign. The mark behind it is that
in front of the rest of its line. -/
def directive : Read Token := do
  let start := (← get).mark
  Read.skip
  let name ← Read.span isWordChar
  if name.isEmpty then Read.fail .noDirectiveName start
  if !isGap (← get).head? then Read.fail .badDirectiveName start
  let kind ←
    if name = "YAML".toList then versionDirective start
    else if name = "TAG".toList then tagDirective start
    else Read.fail .unknownDirective start
  let stop := (← get).mark
  directiveEnd start
  return ⟨kind, start, stop⟩

/-- Read the name of an anchor, or of a reference to one, behind its sign. -/
def anchorName : Read String := do
  let start := (← get).mark
  Read.skip
  let name ← Read.span isWordChar
  let following := (← get).head?
  let ended := isGap following || following.any "?:,]\x7d%@`".toList.contains
  if name.isEmpty || !ended then Read.fail .noName start
  return .ofList name

def tag : Read TokenKind := do
  let start := (← get).mark
  Read.demand 2
  let kind ←
    if (← get).peek? 1 = some '<' then do
      Read.skips 2
      let suffix ← tagSuffix [] start
      if !(← get).isAt '>' then Read.fail .unclosedTag start
      Read.skip
      pure (TokenKind.tag "" suffix)
    else do
      let handle ← tagHandle false start
      if 1 < handle.length && handle.getLast? = some '!' then
        pure (TokenKind.tag (.ofList handle) (← tagSuffix [] start))
      else
        let suffix ← tagSuffix handle start
        pure (if suffix = "" then TokenKind.tag "" "!" else TokenKind.tag "!" suffix)
  Read.demand 1
  if isGap (← get).head? then return kind else Read.fail .textAfterTag start

end Yaml

end Typographical
