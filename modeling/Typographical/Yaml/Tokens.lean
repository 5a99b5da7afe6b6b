import Typographical.Yaml.Comment
import Typographical.Yaml.Token

/-!
# Cutting a document into tokens

Blocks are recognised by their indentation: deeper lines open a block, less
deep ones close it. Whether a token is the key of a mapping is known only once
the colon behind it has been found, which has to happen on the same line and
within 1024 characters; the tokens that announce a key, and possibly a mapping,
are then put in front of it.

Tokens are found on demand. A reader of tokens gets a token only when two more
have been found behind it and it is not held back because it may turn out to be
a key. A token is held back as long as there is a candidate for a key on its
level of flow collections, be it another token. If the token of a key has been
passed on nevertheless, the tokens that announce it come last.

A reader may ask again after a fault. Cutting then goes on where it stopped.
-/

namespace Typographical

namespace Yaml

/-- The last token of a level of flow collections that could be a key: its
number and place, whether it has to be one, and whether it can still be one. -/
structure Candidate where
  number : Nat
  mark : Mark
  required : Bool
  live : Bool

/-- Whether a candidate cannot be a key any more once a mark is reached. -/
def Candidate.stale (k : Candidate) (m : Mark) : Bool :=
  k.mark.line < m.line || k.mark.index + 1024 < m.index

/-- The state of cutting: what is left, the tokens found, how many of them have
been passed on, the columns of the open blocks, the candidates of all levels of
flow collections, outermost first, with the current level apart, the numbers of
the tokens that are held back with their levels, whether a key may begin, the
comments that no token has taken yet, and the last fault that was passed over. -/
structure Cutter where
  cursor : Cursor
  tokens : Array Token
  passed : Nat
  columns : List Nat
  candidate : Candidate
  outer : Array Candidate
  held : List (Nat × Nat)
  keyAllowed : Bool
  comments : List Comment
  noted : Option Fault

namespace Cutter

def start (text : List Char) : Cutter where
  cursor := .start text
  tokens := #[]
  passed := 0
  columns := []
  candidate := ⟨0, .origin, false, false⟩
  outer := #[]
  held := []
  keyAllowed := true
  comments := []
  noted := none

def inFlow (s : Cutter) : Bool := !s.outer.isEmpty

/-- Whether the innermost block is indented less than to a column. -/
def rolls (s : Cutter) (column : Nat) : Bool := s.columns.head?.all (· < column)

def push (s : Cutter) (t : Token) : Cutter := { s with tokens := s.tokens.push t }

/-- Put a token without extent at a place among those not passed on yet, or at
the end if the place is in front of them. -/
def insertAt (s : Cutter) (number : Nat) (kind : TokenKind) (m : Mark) : Cutter :=
  if number < s.passed then s.push ⟨kind, m, m⟩
  else { s with tokens := s.tokens.insertIdxIfInBounds number ⟨kind, m, m⟩ }

/-- The candidate of a level, counted from the outermost. -/
def level? (s : Cutter) (n : Nat) : Option Candidate :=
  if n = s.outer.size then some s.candidate else s.outer[n]?

def giveUpLevel (s : Cutter) (n : Nat) : Cutter :=
  if n = s.outer.size then { s with candidate := { s.candidate with live := false } }
  else { s with outer := s.outer.modify n (fun k => { k with live := false }) }

def release (s : Cutter) (number : Nat) : Cutter :=
  { s with held := s.held.filter (fun h => h.1 ≠ number) }

def note (s : Cutter) (f : Fault) : Cutter := { s with noted := some (f.after s.noted) }

end Cutter

/-- Cutting, which keeps its state when it fails. -/
abbrev Cut := EStateM Fault Cutter

namespace Cut

def read {α : Type} (x : Read α) : Cut α := fun s =>
  match x s.cursor with
  | .ok a c => .ok a { s with cursor := c }
  | .error f c => .error f { s with cursor := c }

def mark : Cut Mark := do return (← get).cursor.mark

def fail {α : Type} (p : Problem) : Cut α := do
  let m ← mark
  throw (.inToken p m m)

/-- Read a token of a kind that is known before. -/
def pushRead {α : Type} (x : Read α) (kind : α → TokenKind) : Cut Unit := do
  let start ← mark
  let a ← read x
  let stop ← mark
  modify (·.push ⟨kind a, start, stop⟩)

def pushSign (kind : TokenKind) (length : Nat) : Cut Unit :=
  pushRead (Read.skips length) (fun _ => kind)

/-- Open a block at a column if that is deeper than the innermost block and no
flow collection is open. The token that announces it is put at a place among the
tokens. -/
def roll (column number : Nat) (kind : TokenKind) (m : Mark) : Cut Unit := do
  let s ← get
  if !s.inFlow && s.rolls column then
    let columns := column :: s.columns
    set { s with columns := columns }
    if depthLimit < columns.length then
      throw (.inToken .tooDeep s.candidate.mark s.cursor.mark)
    modify (·.insertAt number kind m)

def rollHere (kind : TokenKind) : Cut Unit := do
  let s ← get
  roll s.cursor.mark.column s.tokens.size kind s.cursor.mark

/-- Where a block ends that is indented to a column, if it would end at a mark:
at the first of the comments in front that are indented like it. -/
def blockStop (column : Nat) : Nat → Mark → List Comment → Mark
  | _, m, [] => m
  | limit, m, c :: earlier =>
    if c.stop.index < limit then m
    else
      blockStop column c.origin.index (if c.start.column = column + 1 then c.start else m) earlier

/-- Close blocks, each at the mark that the one inside it was closed at or before
that. -/
def closeBlocks (comments : List Comment) : List Nat → Mark → Array Token → Array Token
  | [], _, tokens => tokens
  | column :: rest, m, tokens =>
    let stop := blockStop column m.index m comments
    closeBlocks comments rest stop (tokens.push ⟨.blockEnd, stop, stop⟩)

/-- Close the blocks that are deeper than a column, all of them if there is none,
where the search for the next token began at a mark. -/
def unroll (column : Option Nat) (origin : Mark) : Cut Unit := do
  let s ← get
  if !s.inFlow then
    let closed := s.columns.takeWhile (fun n => column.all (· < n))
    if !closed.isEmpty then
      let before : Mark := { origin with index := origin.index - 1 }
      set { s with
        tokens := closeBlocks s.comments.reverse closed before s.tokens
        columns := s.columns.drop closed.length }

def missingColon {α : Type} (k : Candidate) : Cut α := do
  throw (.inToken .keyWithoutColon k.mark (← mark))

/-- The candidate of the current level cannot be a key any more. -/
def giveUp : Cut Unit := modify (fun s => s.giveUpLevel s.outer.size)

def dropCandidate : Cut Unit := do
  let k := (← get).candidate
  if k.live then
    if k.required then missingColon k
    giveUp
    modify (·.release k.number)

/-- Remember that the next token may be a key, if one is allowed here. -/
def noteCandidate : Cut Unit := do
  let s ← get
  if s.keyAllowed then
    let m := s.cursor.mark
    let number := s.tokens.size
    let required := !s.inFlow && s.columns.head? = some m.column
    dropCandidate
    modify (fun s =>
      { s with
        candidate := ⟨number, m, required, true⟩
        held := (number, s.outer.size) :: (s.release number).held })

/-- Whether a candidate can still be a key. It is an error if one that has to be
a key cannot. -/
def isLive (k : Candidate) : Cut Bool := do
  if !k.live then return false
  if !k.stale (← mark) then return true
  if k.required then missingColon k
  return false

/-- Say whether a key may begin behind what was read last. -/
def allowKey (allowed : Bool) : Cut Unit := modify (fun s => { s with keyAllowed := allowed })

def keep (found : List Comment) (f : Option Fault) : Cut Unit := do
  modify (fun s => { s with comments := s.comments ++ found })
  match f with
  | some f => modify (·.note f)
  | none => return ()

def trailing (owner : Mark) : Cut Unit := do
  let (found, f) ← read (trailingComment owner)
  keep found.toList f

/-- Read the comments in front of the next token, where the search for it began
at a mark. -/
def leading (origin : Mark) : Cut Unit := do
  let s ← get
  let here := s.cursor.mark
  let breaks := s.cursor.breaks
  let last := s.tokens.back?
  let owner :=
    if last.any (·.kind = .flowEntry) && 1 < s.tokens.size then s.tokens[s.tokens.size - 2]?
    else last
  let around : Surroundings := {
    column := s.columns.headD 0
    inFlow := s.inFlow
    afterColon := owner.any (·.kind = .value)
    footLine :=
      if origin.column = 0 then none
      else if breaks = 0 && 1 < here.column then some (here.line + 2)
      else some (here.line - breaks + 1) }
  let (found, f) ← read (comments around origin (owner.elim .origin Token.start))
  keep found f

/-- A comment beside the first dash of a sequence belongs to what follows the
dash. -/
def raiseComment (s : Cutter) : Cutter :=
  let afterDash := s.tokens.back?.any (·.kind = .entry) &&
    s.tokens[s.tokens.size - 2]?.any (·.kind = .blockSequence)
  match s.comments.getLast? with
  | none => s
  | some c =>
    if afterDash && c.placement = .beside && !s.cursor.atBreak then
      let owner := if c.start.line + 1 = s.cursor.mark.line then s.cursor.mark else c.owner
      { s with comments := s.comments.dropLast ++ [{ c with placement := .above, owner := owner }] }
    else s

/-- Move over a byte order mark that the text begins with, or the last portion
of it. -/
def skipOrderMark : Read Unit := do
  Read.demand 1
  let c ← get
  if c.mark.column = 0 && c.front = some orderMark then Read.skip

/-- Move to the next token, where the search for it began at a mark. Tabs are
moved over where no key may begin. Each round moves over a line break. -/
def toToken (origin : Mark) : Nat → Cut Unit
  | 0 => return ()
  | rounds + 1 => do
    read skipOrderMark
    let s ← get
    let tabs := s.inFlow || !s.keyAllowed
    let _ ← read (Read.span (fun a => a = ' ' || tabs && a = '\t'))
    modify raiseComment
    if (← get).cursor.isAt '#' then leading origin
    if (← get).cursor.atBreak then
      read (do
        Read.demand 2
        let _ ← Read.lineBreak)
      if !(← get).inFlow then allowKey true
      toToken origin rounds

/-- The end of everything that is open, in front of a token that stands outside
of all collections. -/
def closeAll : Cut Unit := do
  unroll none (← mark)
  dropCandidate
  allowKey false

def openFlow (kind : TokenKind) : Cut Unit := do
  noteCandidate
  let s ← get
  let m := s.cursor.mark
  let depth := s.outer.size + 1
  set { s with
    outer := s.outer.push s.candidate
    candidate := ⟨s.tokens.size, m, false, false⟩ }
  if depthLimit < depth then throw (.inToken .tooDeep m m)
  allowKey true
  pushSign kind 1

/-- The end of a flow collection. If the collection is empty, the token that
began it is held back no longer. -/
def closeFlow (kind : TokenKind) : Cut Unit := do
  dropCandidate
  modify (fun s =>
    match s.outer.back? with
    | none => s
    | some k => { s.release s.candidate.number with candidate := k, outer := s.outer.pop })
  allowKey false
  pushSign kind 1

def comma : Cut Unit := do
  dropCandidate
  allowKey true
  pushSign .flowEntry 1

def checkAllowed (p : Problem) : Cut Unit := do
  let s ← get
  if !s.inFlow && !s.keyAllowed then fail p

def dash : Cut Unit := do
  checkAllowed .misplacedEntry
  rollHere .blockSequence
  dropCandidate
  allowKey true
  pushSign .entry 1

def question : Cut Unit := do
  checkAllowed .misplacedKey
  rollHere .blockMapping
  dropCandidate
  allowKey !(← get).inFlow
  pushSign .key 1

/-- A colon that begins a value. If there is a candidate, it was the key. -/
def colon : Cut Unit := do
  let k := (← get).candidate
  if ← isLive k then
    modify (·.insertAt k.number .key k.mark)
    roll k.mark.column k.number .blockMapping k.mark
    giveUp
    modify (·.release k.number)
    allowKey false
  else
    giveUp
    checkAllowed .misplacedValue
    rollHere .blockMapping
    allowKey !(← get).inFlow
  pushSign .value 1

/-- An anchor, a reference to one, or a tag. -/
def property {α : Type} (x : Read α) (kind : α → TokenKind) : Cut Unit := do
  noteCandidate
  allowKey false
  pushRead x kind

def block : Cut Unit := do
  dropCandidate
  allowKey true
  let start ← mark
  let header ← read blockHeader
  if (← get).cursor.isAt '#' then
    trailing start
    let _ ← read Read.line
  read (blockHeaderEnd start)
  let outer := (← get).columns.head?
  let text ← read (blockLines header start outer)
  let stop ← mark
  modify (·.push ⟨.scalar .block (.ofList text), start, stop⟩)

def quoted (double : Bool) : Cut Unit := do
  noteCandidate
  allowKey false
  pushRead (quotedScalar double) (fun text => .scalar .quoted (.ofList text))

/-- A plain scalar. If it ends at the end of a line, a key may follow. -/
def plain : Cut Unit := do
  noteCandidate
  allowKey false
  let s ← get
  let margin :=
    match s.columns.head? with
    | some column => column + 1
    | none => 0
  let start ← mark
  let (text, broken) ← read (plainScalar s.inFlow margin)
  let stop ← mark
  modify (·.push ⟨.scalar .plain (.ofList text), start, stop⟩)
  if broken then allowKey true

def beginsPlain (inFlow : Bool) (a : Char) (following : Option Char) : Bool :=
  !"-?:,[]\x7b\x7d#&*!|>'\"%@`".toList.contains a ||
    a = '-' && !following.any isBlank ||
    !inFlow && (a = '?' || a = ':') && !isGap following

/-- Find the next token, which begins with a given character. -/
def token (a : Char) (following : Option Char) (inFlow : Bool) : Cut Unit :=
  let alone := isGap following
  if a = '[' then openFlow .flowSequence
  else if a = '\x7b' then openFlow .flowMapping
  else if a = ']' then closeFlow .flowSequenceEnd
  else if a = '\x7d' then closeFlow .flowMappingEnd
  else if a = ',' then comma
  else if a = '-' && alone then dash
  else if a = '?' && (inFlow || alone) then question
  else if a = ':' && (inFlow || alone) then colon
  else if a = '*' then property anchorName .reference
  else if a = '&' then property anchorName .anchor
  else if a = '!' then property tag id
  else if (a = '|' || a = '>') && !inFlow then block
  else if a = '\'' then quoted false
  else if a = '"' then quoted true
  else if !isBlank a && beginsPlain inFlow a following then plain
  else fail .strayCharacter

/-- Find a token and the comment beside it. A comment behind a colon or a comma
belongs to the token in front of that, and none is looked for behind a dash. -/
def commentedToken (a : Char) : Cut Unit := do
  let s ← get
  let joins := if s.inFlow then a = ',' else a = ':'
  let owner :=
    if joins then s.tokens.back?.elim s.cursor.mark Token.start else s.cursor.mark
  token a (s.cursor.peek? 1) s.inFlow
  if !(← get).tokens.back?.any (·.kind = .entry) then trailing owner

/-- The end of the text, which counts as the end of a line. -/
def finish : Cut Unit := do
  modify (fun s =>
    let m := s.cursor.mark
    let m := if m.column = 0 then m else ⟨m.index, m.line + 1, 0⟩
    { s with cursor := { s.cursor with mark := m } })
  closeAll
  pushSign .streamEnd 0

/-- Find the next token. The first one only says that the text begins. -/
def fetch : Cut Unit := do
  read (Read.demand 1)
  if (← get).tokens.isEmpty then pushSign .streamStart 0
  else
    let origin ← mark
    toToken origin ((← get).cursor.size + 1)
    unroll (some (← mark).column) origin
    read (Read.demand 4)
    let c := (← get).cursor
    match c.head? with
    | none => finish
    | some a =>
      if c.mark.column = 0 && a = '%' then
        closeAll
        let t ← read directive
        modify (·.push t)
      else if c.atTriple '-' then
        closeAll
        pushSign .documentStart 3
      else if c.atTriple '.' then
        closeAll
        pushSign .documentEnd 3
      else commentedToken a

/-- Whether the first token that was not passed on is held back. A candidate
that is stale is given up. -/
def isHeld : Cut Bool := do
  let s ← get
  match s.held.lookup s.passed with
  | none => return false
  | some n =>
    match s.level? n with
    | none => return false
    | some k =>
      let live ← isLive k
      if !live then modify (·.giveUpLevel n)
      return live

/-- Find tokens until the next one can be passed on. Each round finds a token. -/
def supply : Nat → Cut Unit
  | 0 => return ()
  | rounds + 1 => do
    let s ← get
    if s.passed + 3 ≤ s.tokens.size then
      if !(← isHeld) then return ()
    fetch
    supply rounds

def next : Cut Token := do
  supply ((← get).cursor.size + 8)
  let s ← get
  return (s.tokens[s.passed]?).getD ⟨.streamEnd, s.cursor.mark, s.cursor.mark⟩

def pass : Cut Unit :=
  modify (fun s =>
    { s with passed := s.passed + 1, held := s.held.filter (fun h => s.passed < h.1) })

end Cut

end Yaml

end Typographical
