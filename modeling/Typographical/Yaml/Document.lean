import Typographical.Yaml.Node
import Typographical.Yaml.Tokens

/-!
# Building documents

The first document of a stream is built from its tokens, deciding by the next
token alone. Where a key, a value or an entry is left out, an empty plain scalar
stands for it.

A collection is built in steps: its beginning, its parts, and its end. A fault
that was passed over stops the step in which it was met, unless the step itself
finds another one. Such a fault is passed over in one place: behind a dash with
a comment above it, the token after the dash is asked for twice.

Reading costs a unit of fuel per node, per entry of a collection and per piece
of either; every entry takes a token, so a few units per token are enough.
-/

namespace Typographical

namespace Yaml

/-- The state of building: that of cutting, the comment above the next token,
the handles of tags, the names given to nodes, latest first, and the nodes that
are complete. -/
structure Builder where
  cutter : Cutter
  above : List Char
  handles : List (String × String)
  names : List (String × Nat)
  count : Nat
  named : List (Nat × Node)

abbrev Build := EStateM Fault Builder

namespace Build

def cut {α : Type} (x : Cut α) : Build α := fun b =>
  match x b.cutter with
  | .ok a s => .ok a { b with cutter := s }
  | .error f s => .error f { b with cutter := s }

/-- The comments above a token that begins at an index, behind `above`, and the
comments that are left. What closes a block has no comment above it. -/
def claim (kind : TokenKind) (index : Nat) : List Char → List Comment → List Char × List Comment
  | above, [] => (above, [])
  | above, c :: rest =>
    if index < c.owner.index then (above, c :: rest)
    else if c.placement = .above then
      if kind = .blockEnd then (above, c :: rest)
      else claim kind index (if above.isEmpty then c.text else above ++ '\n' :: c.text) rest
    else claim kind index above rest

def peek : Build Token := do
  let t ← cut Cut.next
  modify (fun b =>
    let (above, comments) := claim t.kind t.start.index b.above b.cutter.comments
    { b with above := above, cutter := { b.cutter with comments := comments } })
  return t

def drop : Build Unit := cut Cut.pass

/-- Move to the token behind the next one, and look at it. -/
def advance : Build Token := do
  drop
  peek

/-- The next token, if there is no fault in front of it. A fault is noted. -/
def glance : Build (Option Token) := fun b =>
  match peek b with
  | .ok t b => .ok (some t) b
  | .error f b => .ok none { b with cutter := b.cutter.note f }

/-- The comment above belongs to what has been read. -/
def useComment : Build Unit := modify (fun b => { b with above := [] })

/-- End a step: a fault that was passed over stops building now. -/
def settle : Build Unit := do
  match (← get).cutter.noted with
  | some f => throw f
  | none => return ()

/-- What stands where a node is left out. -/
def absent (m : Mark) : Build Node := do
  settle
  return .scalar (m.line + 1) none .plain ""

structure Properties where
  start : Mark
  anchor : Option String
  tag : Option String

def spellTag (start m : Mark) (handle suffix : String) : Build String := do
  if handle = "" then return suffix
  match (← get).handles.lookup handle with
  | some stem => return stem ++ suffix
  | none => throw (.inOrder .unknownTagHandle start m)

/-- Read the names and tags in front of a node: one of each, in any order. -/
def properties : Build Properties := do
  let t ← peek
  match t.kind with
  | .anchor name =>
    let t' ← advance
    match t'.kind with
    | .tag handle suffix =>
      let _ ← advance
      return ⟨t.start, some name, some (← spellTag t.start t'.start handle suffix)⟩
    | _ => return ⟨t.start, some name, none⟩
  | .tag handle suffix =>
    let t' ← advance
    match t'.kind with
    | .anchor name =>
      let _ ← advance
      return ⟨t.start, some name, some (← spellTag t.start t.start handle suffix)⟩
    | _ => return ⟨t.start, none, some (← spellTag t.start t.start handle suffix)⟩
  | _ => return ⟨t.start, none, none⟩

def name (anchor : Option String) : Build (Option Nat) :=
  match anchor with
  | none => return none
  | some a => do
    let b ← get
    set { b with names := (a, b.count) :: b.names, count := b.count + 1 }
    return some b.count

def keep (number : Option Nat) (n : Node) : Build Node := do
  match number with
  | none => return n
  | some k =>
    modify (fun b => { b with named := (k, n) :: b.named })
    return n

/-- Out of fuel; this is not reached. -/
def exhausted {α : Type} : Build α := throw (.overall .noNode)

/-- Move over a dash to what follows it. A comment above the dash belongs to the
block that begins behind it, if one does. -/
def passDash : Build Token := do
  let above := (← get).above
  drop
  if !above.isEmpty then
    let t ← glance
    if t.any (fun t => t.kind = .blockSequence || t.kind = .blockMapping) then
      modify (fun b => { b with above := b.above.drop (above.length + 1) })
  peek

mutual

/-- Read a node. Only inside blocks may it be a block; only as a part of a block
mapping may it be a sequence that is not indented. -/
def node : Nat → Bool → Bool → Build Node
  | 0, _, _ => exhausted
  | fuel + 1, inBlock, unindented => do
    let t ← peek
    match t.kind with
    | .reference a =>
      useComment
      drop
      settle
      match (← get).names.lookup a with
      | none => throw (.overall (.unknownAnchor a))
      | some target => return .reference (t.start.line + 1) t.start.index a target
    | _ =>
      let p ← properties
      let line := p.start.line + 1
      let t ← peek
      match t.kind with
      | .scalar style text =>
        useComment
        drop
        settle
        keep (← name p.anchor) (.scalar line p.tag style text)
      | .flowSequence =>
        useComment
        settle
        let number ← name p.anchor
        drop
        keep number (.sequence line p.tag (← flowItems fuel t.start true []))
      | .flowMapping =>
        useComment
        settle
        let number ← name p.anchor
        drop
        keep number (.mapping line p.tag (← flowEntries fuel t.start true []))
      | kind =>
        if unindented && kind = .entry then
          settle
          let number ← name p.anchor
          keep number (.sequence line p.tag (← unindentedItems fuel []))
        else if inBlock && kind = .blockSequence then
          settle
          let number ← name p.anchor
          drop
          keep number (.sequence line p.tag (← blockItems fuel t.start []))
        else if inBlock && kind = .blockMapping then
          settle
          let number ← name p.anchor
          drop
          keep number (.mapping line p.tag (← blockEntries fuel t.start []))
        else if p.anchor.isSome || p.tag.isSome then
          settle
          keep (← name p.anchor) (.scalar line p.tag .plain "")
        else throw (.inOrder .noNode p.start t.start)

/-- Read the entries of a block sequence that began at a mark, behind those
given, latest first. -/
def blockItems : Nat → Mark → List Node → Build (List Node)
  | 0, _, _ => exhausted
  | fuel + 1, start, items => do
    let t ← peek
    match t.kind with
    | .entry =>
      let t' ← passDash
      let item ←
        if t'.kind = .entry || t'.kind = .blockEnd then absent t.stop
        else node fuel true false
      blockItems fuel start (item :: items)
    | .blockEnd =>
      drop
      settle
      return items.reverse
    | _ => throw (.inOrder .noEntry start t.start)

def unindentedItems : Nat → List Node → Build (List Node)
  | 0, _ => exhausted
  | fuel + 1, items => do
    let t ← peek
    match t.kind with
    | .entry =>
      let t' ← passDash
      let item ←
        if t'.kind = .entry || t'.kind = .key || t'.kind = .value || t'.kind = .blockEnd then
          absent t.stop
        else node fuel true false
      unindentedItems fuel (item :: items)
    | _ =>
      settle
      return items.reverse

def blockEntries : Nat → Mark → List (Node × Node) → Build (List (Node × Node))
  | 0, _, _ => exhausted
  | fuel + 1, start, entries => do
    let t ← peek
    match t.kind with
    | .key =>
      let k ← blockPart fuel t
      let t ← peek
      let v ← if t.kind = .value then blockPart fuel t else absent t.start
      blockEntries fuel start ((k, v) :: entries)
    | .blockEnd =>
      useComment
      drop
      settle
      return entries.reverse
    | _ => throw (.inOrder .noKey start t.start)

/-- Read the key or value of a block mapping behind the token that begins it. -/
def blockPart : Nat → Token → Build Node
  | 0, _ => exhausted
  | fuel + 1, t => do
    let t' ← advance
    if t'.kind = .key || t'.kind = .value || t'.kind = .blockEnd then absent t.stop
    else node fuel true true

def flowItems : Nat → Mark → Bool → List Node → Build (List Node)
  | 0, _, _, _ => exhausted
  | fuel + 1, start, first, items => do
    let t ← peek
    let t ←
      if first || t.kind = .flowSequenceEnd then pure t
      else if t.kind = .flowEntry then advance
      else throw (.inOrder .openSequence start t.start)
    match t.kind with
    | .flowSequenceEnd =>
      useComment
      drop
      settle
      return items.reverse
    | .key =>
      drop
      settle
      let item ← pair fuel (t.start.line + 1)
      flowItems fuel start false (item :: items)
    | _ =>
      let item ← node fuel false false
      flowItems fuel start false (item :: items)

/-- Read a single key and value inside a flow sequence, as a mapping. -/
def pair : Nat → Nat → Build Node
  | 0, _ => exhausted
  | fuel + 1, line => do
    let t ← peek
    let k ←
      if t.kind = .value || t.kind = .flowEntry || t.kind = .flowSequenceEnd then do
        drop
        absent t.stop
      else node fuel false false
    let t ← peek
    let t' ← if t.kind = .value then advance else pure t
    let v ←
      if t.kind = .value && t'.kind ≠ .flowEntry && t'.kind ≠ .flowSequenceEnd then
        node fuel false false
      else absent t.start
    let _ ← peek
    settle
    return .mapping line none [(k, v)]

def flowEntries : Nat → Mark → Bool → List (Node × Node) → Build (List (Node × Node))
  | 0, _, _, _ => exhausted
  | fuel + 1, start, first, entries => do
    let t ← peek
    let t ←
      if first || t.kind = .flowMappingEnd then pure t
      else if t.kind = .flowEntry then advance
      else throw (.inOrder .openMapping start t.start)
    match t.kind with
    | .flowMappingEnd =>
      useComment
      drop
      settle
      return entries.reverse
    | .key =>
      let t ← advance
      let k ←
        if t.kind = .value || t.kind = .flowEntry || t.kind = .flowMappingEnd then
          absent t.start
        else node fuel false false
      let t ← peek
      let t' ← if t.kind = .value then advance else pure t
      let v ←
        if t.kind = .value && t'.kind ≠ .flowEntry && t'.kind ≠ .flowMappingEnd then
          node fuel false false
        else absent t'.start
      flowEntries fuel start false ((k, v) :: entries)
    | _ =>
      let k ← node fuel false false
      let t ← peek
      let v ← absent t.start
      flowEntries fuel start false ((k, v) :: entries)

end

/-- The tag handles that need no definition. -/
def standardHandles : List (String × String) :=
  [("!", "!"), ("!!", "tag:yaml.org,2002:")]

def directives : Nat → Bool → Build Unit
  | 0, _ => return ()
  | rounds + 1, versioned => do
    let t ← peek
    match t.kind with
    | .version major minor =>
      if versioned then throw (.inOrder .secondVersion .origin t.start)
      if major ≠ 1 || minor ≠ 1 then throw (.inOrder .unsupportedVersion .origin t.start)
      drop
      directives rounds true
    | .tagHandle handle stem =>
      if ((← get).handles.lookup handle).isSome then
        throw (.inOrder .secondTagHandle .origin t.start)
      modify (fun b => { b with handles := (handle, stem) :: b.handles })
      drop
      directives rounds versioned
    | _ => modify (fun b => { b with handles := b.handles ++ standardHandles })

/-- Whether a token ends a document that has no content. -/
def endsEmpty : TokenKind → Bool
  | .version .. | .tagHandle .. | .documentStart | .documentEnd | .streamEnd => true
  | _ => false

/-- The part of a comment behind its last empty line, from the last line on, or
the whole comment if there is none. -/
def lastLines (whole : List Char) : List Char → List Char → List Char
  | '\n' :: '\n' :: _, behind => behind
  | a :: rest, behind => lastLines whole rest (a :: behind)
  | [], _ => whole

/-- The part of a comment behind its last empty line. What stands before belongs
to the document and not to its first node. -/
def behindEmptyLine (above : List Char) : List Char :=
  if above.getLast? = some '\n' then [] else lastLines above above.reverse []

def document (fuel : Nat) : Build (Option Node) := do
  let _ ← peek
  drop
  settle
  let t ← peek
  match t.kind with
  | .streamEnd =>
    settle
    return none
  | .version .. | .tagHandle .. | .documentStart =>
    directives fuel false
    let t ← peek
    if t.kind ≠ .documentStart then throw (.inOrder .noDocumentStart .origin t.start)
    drop
    settle
    let t ← peek
    let root ← if endsEmpty t.kind then absent t.start else node fuel true false
    let _ ← peek
    settle
    return some root
  | _ =>
    directives fuel false
    modify (fun b => { b with above := behindEmptyLine b.above })
    settle
    let root ← node fuel true false
    let _ ← peek
    settle
    return some root

end Build

def Document.parse (text : String) : Except Fault (Option Document) :=
  let fuel := 16 * (text.length + 4)
  match Build.document fuel ⟨.start text.toList, [], [], [], 0, []⟩ with
  | .ok root b => .ok (root.map (fun r => ⟨r, b.named⟩))
  | .error f b => .error (f.after b.cutter.noted)

end Yaml

end Typographical
