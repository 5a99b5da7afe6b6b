import Typographical.Proofs.Viability

/-!
# Reading with a pointer

Tokens may also be read by pointing at one of them after another. A pointer can
stray: it can point behind the last token, a token can be taken for one of a kind
that it is not of, and there is no token before the first. None of this happens
with the tokens of a text. The end of input is never passed, a token is only taken
after it has been looked at, and at the end of a formula there are tokens behind
the pointer.

This is shown by comparing what is read with a pointer and what is read from the
front of a list. At each point the two have the same tokens before them.
-/

namespace Typographical

namespace Grammar

/-- A computation that moves a pointer. It fails with a complaint, or gives no
answer at all if the pointer strays. -/
def Pointed (α : Type) := Nat → Option (Except SyntaxError (α × Nat))

instance : Monad Pointed where
  pure a := fun i => some (.ok (a, i))
  bind p next := fun i =>
    match p i with
    | none => none
    | some (.error e) => some (.error e)
    | some (.ok (a, j)) => next a j

namespace Pointed

variable {α : Type} (file : SourceFile) (tokens : Input)

def astray : Pointed α := fun _ => none

def ahead : Pointed (Token Lexeme) := fun i =>
  match tokens[i]? with
  | some t => some (.ok (t, i))
  | none => none

def behind : Pointed (Token Lexeme) := fun i =>
  match i with
  | 0 => none
  | i + 1 =>
    match tokens[i]? with
    | some t => some (.ok (t, i + 1))
    | none => none

def advance : Pointed Unit := fun i => some (.ok ((), i + 1))

/-- Take the token pointed at, which has to be of a kind. -/
def take (kind : Lexeme) : Pointed (Token Lexeme) := do
  let t ← ahead tokens
  if t.kind = kind then
    advance
    return t
  else astray

def blame (t : Token Lexeme) (c : Complaint) : Pointed α := fun _ =>
  some (.error ⟨file, t.span, c.message⟩)

/-- Take the token pointed at if it is of a kind, and complain otherwise. -/
def expect (kind : Lexeme) (c : Complaint) : Pointed Unit := do
  let t ← ahead tokens
  if t.kind = kind then advance else blame file t c

def named (t : Token Lexeme) : Pointed Variable :=
  match Variable.ofChars? (file.slice t.span) with
  | some v => pure v
  | none => blame file t .invalidName

def operator : Pointed (Term → Term → Term) := do
  let op ← ahead tokens
  match op.kind with
  | .plus => do
    let _ ← take tokens .plus
    return .sum
  | .times => do
    let _ ← take tokens .times
    return .product
  | _ => blame file op .operator

def connective : Pointed Connective := do
  let op ← ahead tokens
  match op.kind with
  | .and => do
    let _ ← take tokens .and
    return .and
  | .or => do
    let _ ← take tokens .or
    return .or
  | .implies => do
    let _ ← take tokens .implies
    return .implies
  | _ => blame file op .connective

/-- Read a term. No answer is given if there are more than `depth` levels. -/
def term : Nat → Pointed Term
  | 0 => astray
  | depth + 1 => do
    let t ← ahead tokens
    match t.kind with
    | .zero => do
      let _ ← take tokens .zero
      return .zero
    | .successor => do
      let _ ← take tokens .successor
      let argument ← term depth
      return .succ argument
    | .name => do
      let _ ← take tokens .name
      let v ← named file t
      return .var v
    | .leftParenthesis => do
      let _ ← take tokens .leftParenthesis
      let l ← term depth
      let op ← operator file tokens
      let r ← term depth
      expect file tokens .rightParenthesis .closingParenthesis
      return op l r
    | .endOfInput => blame file t .unexpectedEnd
    | _ => blame file t .term

def equality (depth : Nat) : Pointed (Formula × (Span → Outline)) := do
  let l ← term file tokens depth
  expect file tokens .equals .equals
  let r ← term file tokens depth
  return (.equality l r, .leaf)

def quantified : Pointed Variable := do
  let name ← ahead tokens
  expect file tokens .name .name
  expect file tokens .colon .colon
  named file name

/-- A formula that begins at a token and ends with the token before the one
pointed at. -/
def spanned (start : Token Lexeme) (shape : Pointed (Formula × (Span → Outline))) :
    Pointed (Formula × Outline) := do
  let f ← shape
  let last ← behind tokens
  return (f.1, f.2 (start.span.join last.span))

def formula : Nat → Pointed (Formula × Outline)
  | 0 => astray
  | depth + 1 => do
    let start ← ahead tokens
    match start.kind with
    | .leftBracket => spanned tokens start do
      let _ ← take tokens .leftBracket
      let l ← formula depth
      let op ← connective file tokens
      let r ← formula depth
      expect file tokens .rightBracket .closingBracket
      return (.binary op l.1 r.1, fun s => .binary s l.2 r.2)
    | .tilde => spanned tokens start do
      let _ ← take tokens .tilde
      let f ← formula depth
      return (.neg f.1, fun s => .unary s f.2)
    | .forAll => spanned tokens start do
      let _ ← take tokens .forAll
      let v ← quantified file tokens
      let f ← formula depth
      return (.forAll v f.1, fun s => .unary s f.2)
    | .thereIs => spanned tokens start do
      let _ ← take tokens .thereIs
      let v ← quantified file tokens
      let f ← formula depth
      return (.thereIs v f.1, fun s => .unary s f.2)
    | _ => spanned tokens start (equality file tokens (depth + 1))

def outlinedFormula : Pointed (Formula × Outline) := do
  let f ← formula file tokens tokens.length
  let t ← ahead tokens
  if t.kind = .endOfInput then return f else blame file t .textAfterFormula

/-- After a reading the pointer is at the tokens that follow, and there is a token
behind it. -/
structure Points (j : Nat) (last : Span) (rest : Input) : Prop where
  next : tokens.drop j = rest
  ended : Ended file rest
  passed : ∃ kind, behind tokens j = some (.ok (⟨kind, last⟩, j))

/-- The outcome with a pointer at `i` is that of a reader. What is read with the
pointer stands in a relation to the reading. -/
def Agrees {β : Type} (i : Nat) (R : β → Reading α → Prop)
    (outcome : Option (Except SyntaxError (β × Nat))) : Except SyntaxError (Reading α) → Prop
  | .error e => outcome = some (.error e)
  | .ok r => ∃ b j, outcome = some (.ok (b, j)) ∧ i ≤ j ∧ R b r ∧
      Points file tokens j r.last r.rest

variable {file tokens} {β γ δ : Type} {input rest : Input} {i : Nat} {t : Token Lexeme}

theorem Agrees.pure {R : β → Reading α → Prop} {b : β} {r : Reading α} (hb : R b r)
    (hi : Points file tokens i r.last r.rest) :
    Agrees file tokens i R ((Pure.pure b : Pointed β) i) (.ok r) :=
  ⟨b, i, rfl, Nat.le_refl i, hb, hi⟩

theorem bind_of_error {p : Pointed β} {e : SyntaxError} (h : p i = some (.error e))
    (next : β → Pointed γ) : (p >>= next) i = some (.error e) := by
  simp only [Bind.bind, h]

theorem bind_of_ok {p : Pointed β} {b : β} {j : Nat} (h : p i = some (.ok (b, j)))
    (next : β → Pointed γ) : (p >>= next) i = next b j := by
  simp only [Bind.bind, h]

theorem Agrees.bind {R : β → Reading α → Prop} {R' : γ → Reading δ → Prop} {p : Pointed β}
    {next : β → Pointed γ} {x : Except SyntaxError (Reading α)}
    {f : Reading α → Except SyntaxError (Reading δ)} (hx : Agrees file tokens i R (p i) x)
    (hi : tokens.drop i = input)
    (hf : ∀ b r j, R b r → Points file tokens j r.last r.rest → r.rest.length ≤ input.length →
      Agrees file tokens j R' (next b j) (f r)) :
    Agrees file tokens i R' ((p >>= next) i) (x >>= f) := by
  cases x with
  | error e => exact bind_of_error hx next
  | ok r =>
    obtain ⟨b, j, hp, hij, hb, hj⟩ := hx
    have hlength : r.rest.length ≤ input.length := by
      rw [← hj.next, ← hi, List.length_drop, List.length_drop]
      omega
    have hagrees := hf b r j hb hj hlength
    rw [bind_of_ok hp]
    change Agrees file tokens i R' (next b j) (f r)
    cases hfr : f r with
    | error e => rwa [hfr] at hagrees
    | ok r' =>
      rw [hfr] at hagrees
      obtain ⟨c, k, hc, hjk, hrest⟩ := hagrees
      exact ⟨c, k, hc, Nat.le_trans hij hjk, hrest⟩

theorem getElem?_of_drop (h : tokens.drop i = t :: rest) : tokens[i]? = some t := by
  rw [← List.head?_drop, h, List.head?_cons]

theorem drop_succ (h : tokens.drop i = t :: rest) : tokens.drop (i + 1) = rest := by
  rw [← List.tail_drop, h, List.tail_cons]

theorem behind_succ (h : tokens.drop i = t :: rest) :
    behind tokens (i + 1) = some (.ok (t, i + 1)) := by
  simp only [behind, getElem?_of_drop h]

theorem ahead_bind (h : tokens.drop i = t :: rest) (next : Token Lexeme → Pointed β) :
    (ahead tokens >>= next) i = next t i := by
  apply bind_of_ok
  simp only [ahead, getElem?_of_drop h]

theorem take_bind {kind : Lexeme} {span : Span} (h : tokens.drop i = ⟨kind, span⟩ :: rest)
    (next : Token Lexeme → Pointed β) :
    (take tokens kind >>= next) i = next ⟨kind, span⟩ (i + 1) := by
  apply bind_of_ok
  rw [take, ahead_bind h, if_pos rfl]
  rfl

theorem points_succ (h : tokens.drop i = t :: rest) (hended : Ended file rest) :
    Points file tokens (i + 1) t.span rest :=
  ⟨drop_succ h, hended, t.kind, behind_succ h⟩

theorem Agrees.succ {R : β → Reading α → Prop} {outcome : Option (Except SyntaxError (β × Nat))}
    {x : Except SyntaxError (Reading α)} (h : Agrees file tokens (i + 1) R outcome x) :
    Agrees file tokens i R outcome x := by
  cases x with
  | error e => exact h
  | ok r =>
    obtain ⟨b, j, hb, hij, hrest⟩ := h
    exact ⟨b, j, hb, Nat.le_of_succ_le hij, hrest⟩

theorem agrees_expect {kind : Lexeme} {c : Complaint} (hkind : kind ≠ .endOfInput)
    (hi : tokens.drop i = input) (hinput : Ended file input) :
    Agrees file tokens i (fun _ r => input = ⟨kind, r.last⟩ :: r.rest)
      (expect file tokens kind c i) (Grammar.expect file kind c input) := by
  cases input with
  | nil => exact absurd rfl hinput.ne_nil
  | cons t rest =>
    rw [expect, ahead_bind hi, Grammar.expect]
    by_cases ht : t.kind = kind
    · have hrest := (hinput.tail (ht ▸ hkind)).2
      rw [if_pos ht, if_pos ht]
      exact ⟨(), i + 1, rfl, Nat.le_succ i, by rw [← ht], points_succ hi hrest⟩
    · rw [if_neg ht, if_neg ht]
      rfl

theorem agrees_operator (hi : tokens.drop i = input) (hinput : Ended file input) :
    Agrees file tokens i (fun op r => op = r.value) (operator file tokens i)
      (Grammar.operator file input) := by
  cases input with
  | nil => exact absurd rfl hinput.ne_nil
  | cons t rest =>
    obtain ⟨kind, span⟩ := t
    rw [operator, ahead_bind hi]
    cases kind with
    | plus | times =>
      have hrest := (hinput.tail (by simp)).2
      dsimp only
      rw [take_bind hi]
      exact .succ (.pure rfl (points_succ hi hrest))
    | _ => rfl

theorem agrees_connective (hi : tokens.drop i = input) (hinput : Ended file input) :
    Agrees file tokens i (fun op r => op = r.value) (connective file tokens i)
      (Grammar.connective file input) := by
  cases input with
  | nil => exact absurd rfl hinput.ne_nil
  | cons t rest =>
    obtain ⟨kind, span⟩ := t
    rw [connective, ahead_bind hi]
    cases kind with
    | and | or | implies =>
      have hrest := (hinput.tail (by simp)).2
      dsimp only
      rw [take_bind hi]
      exact .succ (.pure rfl (points_succ hi hrest))
    | _ => rfl

theorem named_eq {span : Span} {v : Variable} (h : nameAt file span = .ok v) (kind : Lexeme) :
    named file ⟨kind, span⟩ = Pure.pure v := by
  have hchars := Variable.ofChars?_eq_some_iff.mpr (nameAt_eq_ok_iff.mp h)
  rw [named, hchars]

theorem agrees_quantified (hi : tokens.drop i = input) (hinput : Ended file input) :
    Agrees file tokens i (fun v r => v = r.value) (quantified file tokens i)
      (readQuantified file input) := by
  cases input with
  | nil => exact absurd rfl hinput.ne_nil
  | cons t rest =>
    rw [quantified, ahead_bind hi, readQuantified]
    refine .bind (agrees_expect (by decide) hi hinput) hi fun _ name _ hname hbehind _ => ?_
    refine .bind (agrees_expect (by decide) hbehind.next hbehind.ended) hbehind.next
      fun _ colon _ _ hbehind _ => ?_
    cases hname
    obtain ⟨v, hv, -⟩ := hinput.nameAt_eq
    rw [hv, named_eq hv]
    exact .pure rfl hbehind

theorem agrees_term {depth depth' : Nat} (hi : tokens.drop i = input) (hinput : Ended file input)
    (enough : input.length ≤ depth) (enough' : input.length ≤ depth') :
    Agrees file tokens i (fun t r => t = r.value) (term file tokens depth i)
      (readTerm file depth' input) := by
  induction depth generalizing depth' input i with
  | zero => exact absurd (List.length_eq_zero_iff.mp (Nat.le_zero.mp enough)) hinput.ne_nil
  | succ depth ih =>
    cases input with
    | nil => exact absurd rfl hinput.ne_nil
    | cons t rest =>
      rw [List.length_cons] at enough enough'
      obtain ⟨depth', rfl⟩ : ∃ k, depth' = k + 1 := ⟨depth' - 1, by omega⟩
      obtain ⟨kind, span⟩ := t
      have hnext := drop_succ hi
      rw [term, ahead_bind hi, readTerm]
      cases kind with
      | zero =>
        have hrest := (hinput.tail (by simp)).2
        dsimp only [lookahead]
        rw [take_bind hi]
        exact .succ (.pure rfl (points_succ hi hrest))
      | successor =>
        have hrest := (hinput.tail (by simp)).2
        dsimp only [lookahead, List.tail_cons]
        rw [take_bind hi]
        refine .succ (.bind (ih hnext hrest (by omega) (by omega)) hnext fun t r j ht hj _ => ?_)
        exact .pure (by rw [ht]) hj
      | name =>
        have hrest := (hinput.tail (by simp)).2
        obtain ⟨v, hv, -⟩ := hinput.nameAt_eq
        dsimp only [lookahead, List.tail_cons]
        rw [take_bind hi, hv, named_eq hv]
        exact .succ (.pure rfl (points_succ hi hrest))
      | leftParenthesis =>
        have hrest := (hinput.tail (by simp)).2
        dsimp only [lookahead, List.tail_cons]
        rw [take_bind hi]
        refine .succ (.bind (ih hnext hrest (by omega) (by omega)) hnext
          fun l _ _ hl hbehind _ => ?_)
        refine .bind (agrees_operator hbehind.next hbehind.ended) hbehind.next
          fun op _ _ hop hbehind _ => ?_
        refine .bind (ih hbehind.next hbehind.ended (by omega) (by omega)) hbehind.next
          fun r _ _ hr hbehind _ => ?_
        refine .bind (agrees_expect (by decide) hbehind.next hbehind.ended) hbehind.next
          fun _ _ _ _ hclose _ => ?_
        exact .pure (by rw [hl, hop, hr]) hclose
      | _ => rfl

theorem agrees_equality {depth : Nat} {start : Span} (hi : tokens.drop i = input)
    (hinput : Ended file input) (enough : input.length ≤ depth) :
    Agrees file tokens i (fun f r => (f.1, f.2 (start.join r.last)) = r.value)
      (equality file tokens depth i) (readEquality file start input) := by
  refine .bind (agrees_term hi hinput enough (Nat.le_refl _)) hi fun l _ _ hl hbehind hshort => ?_
  refine .bind (agrees_expect (by decide) hbehind.next hbehind.ended) hbehind.next
    fun _ _ _ _ hbehind hshorter => ?_
  refine .bind (agrees_term hbehind.next hbehind.ended (by omega) (Nat.le_refl _)) hbehind.next
    fun r _ _ hr hbehind _ => ?_
  exact .pure (by rw [hl, hr]) hbehind

/-- What has been read ends with the token behind the pointer. -/
theorem agrees_spanned {shape : Pointed (Formula × (Span → Outline))}
    {x : Except SyntaxError (Reading (Formula × Outline))}
    (hshape : Agrees file tokens i (fun f r => (f.1, f.2 (t.span.join r.last)) = r.value)
      (shape i) x) :
    Agrees file tokens i (fun f r => f = r.value) (spanned tokens t shape i) x := by
  cases x with
  | error e => exact bind_of_error hshape _
  | ok r =>
    obtain ⟨f, j, hf, hij, hvalue, hj⟩ := hshape
    obtain ⟨kind, hlast⟩ := hj.passed
    refine ⟨r.value, j, ?_, hij, rfl, hj⟩
    rw [spanned, bind_of_ok hf, bind_of_ok hlast, ← hvalue]
    rfl

theorem agrees_formula {depth : Nat} (hi : tokens.drop i = input) (hinput : Ended file input)
    (enough : input.length ≤ depth) :
    Agrees file tokens i (fun f r => f = r.value) (formula file tokens depth i)
      (readFormula file depth input) := by
  induction depth generalizing input i with
  | zero => exact absurd (List.length_eq_zero_iff.mp (Nat.le_zero.mp enough)) hinput.ne_nil
  | succ depth ih =>
    cases input with
    | nil => exact absurd rfl hinput.ne_nil
    | cons t rest =>
      have hshort : rest.length ≤ depth := by simpa using enough
      obtain ⟨kind, span⟩ := t
      have hnext := drop_succ hi
      rw [formula, ahead_bind hi, readFormula]
      cases kind with
      | leftBracket =>
        have hrest := (hinput.tail (by simp)).2
        dsimp only [lookahead, List.tail_cons]
        apply agrees_spanned
        rw [take_bind hi]
        refine .succ (.bind (ih hnext hrest hshort) hnext fun l _ _ hl hbehind _ => ?_)
        refine .bind (agrees_connective hbehind.next hbehind.ended) hbehind.next
          fun op _ _ hop hbehind _ => ?_
        refine .bind (ih hbehind.next hbehind.ended (by omega)) hbehind.next
          fun r _ _ hr hbehind _ => ?_
        refine .bind (agrees_expect (by decide) hbehind.next hbehind.ended) hbehind.next
          fun _ _ _ _ hclose _ => ?_
        exact .pure (by rw [hl, hop, hr]) hclose
      | tilde =>
        have hrest := (hinput.tail (by simp)).2
        dsimp only [lookahead, List.tail_cons]
        apply agrees_spanned
        rw [take_bind hi]
        refine .succ (.bind (ih hnext hrest hshort) hnext fun f _ _ hf hbehind _ => ?_)
        exact .pure (by rw [hf]) hbehind
      | forAll | thereIs =>
        have hrest := (hinput.tail (by simp)).2
        dsimp only [lookahead, List.tail_cons]
        apply agrees_spanned
        rw [take_bind hi]
        refine .succ (.bind (agrees_quantified hnext hrest) hnext fun v _ _ hv hbehind _ => ?_)
        refine .bind (ih hbehind.next hbehind.ended (by omega)) hbehind.next
          fun f _ _ hf hbehind _ => ?_
        exact .pure (by rw [hv, hf]) hbehind
      | _ => exact agrees_spanned (agrees_equality hi hinput enough)

/-- Reading a whole formula with a pointer, the pointer does not stray. -/
theorem outlinedFormula_eq (hinput : Ended file tokens) :
    (outlinedFormula file tokens 0).map (·.map Prod.fst) =
      some (do
        let f ← readFormula file tokens.length tokens
        complete file .textAfterFormula f) := by
  have hformula := agrees_formula (List.drop_zero (l := tokens)) hinput (Nat.le_refl _)
  cases hread : readFormula file tokens.length tokens with
  | error e =>
    rw [hread] at hformula
    rw [outlinedFormula, bind_of_error hformula]
    rfl
  | ok r =>
    rw [hread] at hformula
    obtain ⟨f, j, hf, -, rfl, hj⟩ := hformula
    rw [outlinedFormula, bind_of_ok hf]
    cases hrest : r.rest with
    | nil => exact absurd hrest hj.ended.ne_nil
    | cons t rest =>
      rw [ahead_bind (hj.next.trans hrest)]
      change _ = some (complete file .textAfterFormula r)
      rw [complete, hrest]
      by_cases ht : t.kind = .endOfInput
      · rw [if_pos ht]
        exact congrArg some (if_pos ht).symm
      · rw [if_neg ht]
        exact congrArg some (if_neg ht).symm

end Pointed

end Grammar

end Typographical
