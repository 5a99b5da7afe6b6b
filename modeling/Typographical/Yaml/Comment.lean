import Typographical.Yaml.Cursor

/-!
# Comments

Comments do not change what a document says, but they have to be told apart from
it, and they belong to tokens: a comment stands above a token, beside it or
below it. Looking for a comment ends after 512 bytes without one.

Several lines of comments make up one, with an empty line in between kept as
such. A comment belongs to the token in front of it if it follows directly, or
if it is indented less than the block around it; otherwise it belongs to the
token behind it.
-/

namespace Typographical

namespace Yaml

/-- Where a comment stands, seen from the token that it belongs to. -/
inductive Placement where
  | above
  | beside
  | below
  deriving DecidableEq

/-- A comment: where the token is that it belongs to, where the search for it
began, and where it begins and ends. -/
structure Comment where
  placement : Placement
  text : List Char
  owner : Mark
  origin : Mark
  start : Mark
  stop : Mark

/-- How far one looks for a comment. -/
def commentReach : Nat := 512

/-- Read a comment behind a token, if there is one on the line, looking from a
distance on. A fault of the text ends the search; it is returned. Each round
looks at a character. -/
def trailingFrom (owner : Mark) : Nat → Nat → Read (Option Comment × Option Fault)
  | 0, _ => return (none, none)
  | rounds + 1, distance => fun c =>
    match Read.demand (distance + 1) c with
    | .error f c => .ok (none, some f) c
    | .ok _ c =>
      match c.peek? distance with
      | none => .ok (none, none) c
      | some a =>
        if isBlank a then trailingFrom owner rounds (distance + 1) c
        else if a = '#' then
          (do
            Read.skips distance
            let start := (← get).mark
            let text ← Read.line
            let found : Comment := ⟨.beside, text, owner, .origin, start, .origin⟩
            return (some found, none)) c
        else .ok (none, none) c

/-- Read a comment behind a token, unless a line has ended since. -/
def trailingComment (owner : Mark) : Read (Option Comment × Option Fault) := do
  if 0 < (← get).breaks then return (none, none)
  trailingFrom owner commentReach 0

/-- What a search for comments depends on: the column of the block around it,
whether a flow collection is open, whether a colon was the last token, and the
line on which a comment still belongs to that token. -/
structure Surroundings where
  column : Nat
  inFlow : Bool
  afterColon : Bool
  footLine : Option Nat

/-- A search for comments: the place that is looked at, as a distance from the
cursor with its line and column, the latter counted from one; whether it is the
inside of a line break; whether no empty line has been found yet, and whether
one was found just now; the comment found so far, last character first; and
what is known about it. -/
structure Search where
  distance : Nat
  line : Nat
  column : Nat
  inBreak : Bool
  unbroken : Bool
  emptied : Bool
  text : List Char
  start : Mark
  origin : Mark
  owner : Mark
  found : List Comment

namespace Search

def here (s : Search) (c : Cursor) : Mark := ⟨c.mark.index + s.distance, s.line, s.column⟩

def dedented (s : Search) (around : Surroundings) : Bool := s.start.column - 1 < around.column

/-- The search goes on behind a comment that belongs to the token in front of
it, if there is one. -/
def closed (s : Search) (owner : Mark) (c : Cursor) : Search :=
  if s.text.isEmpty then s
  else
    let here := s.here c
    { s with
      found := ⟨.below, s.text.reverse, owner, s.origin, s.start, here⟩ :: s.found
      origin := here
      owner := here
      text := [] }

/-- The search at the end of a line or of a flow collection. -/
def atLineEnd (around : Surroundings) (s : Search) (closes atBreak : Bool) (c : Cursor) :
    Search :=
  if closes || !s.emptied then
    let belongs :=
      some s.start.line = around.footLine && !around.afterColon || s.dedented around
    if closes || s.unbroken && belongs then
      s.closed (if s.dedented around then s.start else s.owner) c
    else if !s.text.isEmpty && atBreak then { s with text := '\n' :: s.text }
    else s
  else s

def result (s : Search) (c : Cursor) : List Comment :=
  if s.text.isEmpty then s.found.reverse
  else
    let here := s.here c
    let stop : Mark := { here with index := here.index - 1 }
    (⟨.above, s.text.reverse, s.start, s.origin, s.start, stop⟩ :: s.found).reverse

end Search

/-- Move over blanks and line breaks up to an index. Each round moves over one. -/
def advanceTo (index : Nat) : Nat → Read Unit
  | 0 => return ()
  | rounds + 1 => do
    let c ← get
    if c.mark.index < index then
      if c.atBreak then
        let _ ← Read.lineBreak
      else Read.skip
      advanceTo index rounds

def commentLine (s : Search) : Read Search := do
  let c ← get
  let start := if s.text.isEmpty then s.here c else s.start
  let before := if s.text.isEmpty then [] else '\n' :: s.text
  advanceTo (c.mark.index + s.distance) s.distance
  let text ← Read.line
  let c ← get
  return { s with
    distance := 1
    line := c.mark.line
    column := 0
    inBreak := c.head?.any isWideBreak
    emptied := false
    text := text.reverse ++ before
    start := start }

/-- Go on with a search for comments. A fault of the text ends the search; it is
returned. Each round looks at a character. -/
def searchFrom (around : Surroundings) : Nat → Search → Read (List Comment × Option Fault)
  | 0, s => fun c => .ok (s.result c, none) c
  | rounds + 1, s => fun c =>
    if commentReach ≤ s.distance then .ok (s.result c, none) c
    else
      match Read.demand (s.distance + 1) c with
      | .error f c => .ok (s.result c, some f) c
      | .ok _ c =>
        let s := { s with column := s.column + 1 }
        let next := { s with distance := s.distance + 1 }
        let a := c.peek? s.distance
        let closes := !s.inBreak && around.inFlow && (a = some ']' || a = some '\x7d')
        let atBreak := !s.inBreak && a.any isBreak
        if !s.inBreak && a.any isBlank then searchFrom around rounds next c
        else if closes || a.isNone || atBreak then
          let s := s.atLineEnd around closes a.isSome c
          if !atBreak then .ok (s.result c, none) c
          else
            searchFrom around rounds { s with
              distance := s.distance + 1
              line := s.line + 1
              column := 0
              inBreak := a.any isWideBreak
              unbroken := false
              emptied := true } c
        else
          let outside := s.column - 1 < around.column && s.column ≠ s.start.column
          let s := if outside then s.closed s.owner c else s
          if s.inBreak || a ≠ some '#' then .ok (s.result c, none) c
          else (do searchFrom around rounds (← commentLine s)) c

/-- Read the comments from here on, where the search for a token began at
`origin` and the last token at `owner`. -/
def comments (around : Surroundings) (origin owner : Mark) :
    Read (List Comment × Option Fault) := do
  let c ← get
  searchFrom around (2 * (c.size + commentReach)) {
    distance := 0
    line := c.mark.line
    column := c.mark.column
    inBreak := false
    unbroken := c.breaks ≤ 1
    emptied := false
    text := []
    start := .origin
    origin := origin
    owner := owner
    found := [] }

end Yaml

end Typographical
