import Typographical.Proofs.Layout
import Typographical.Proofs.Malformation

/-!
# The spans of a formula

The span recorded for an occurrence of a subformula reaches from its first token
to its last one. So it covers the text of the subformula, it lies within the span
of the formula above, and what stands on either side of a connective is covered by
spans that are apart.

Hence different occurrences have different spans, and a complaint about one of
them cannot be taken for a complaint about another one with the same text.
-/

namespace Typographical

open Grammar

namespace Span

/-- A span lies within another one that begins before it. -/
def Within (s t : Span) : Prop := t.start < s.start ∧ s.stop ≤ t.stop

theorem Within.trans {s t u : Span} (h : s.Within t) (h' : t.Within u) : s.Within u :=
  ⟨h'.1.trans h.1, h.2.trans h'.2⟩

/-- What comes behind one span and does not reach beyond another lies within what
encloses both. -/
theorem within_join {s t u : Span} (long : t.start < t.stop) (behind : t.stop ≤ s.start)
    (reach : s.stop ≤ u.stop) : s.Within (t.join u) := by
  constructor
  · exact lt_of_le_of_lt (min_le_left ..) (lt_of_lt_of_le long behind)
  · exact le_trans reach (le_max_right ..)

end Span

namespace SourceMap

variable {file : SourceFile} {κ : Type} [DecidableEq κ]

theorem find?_cons (key k : κ) (span : Span) (entries : List (κ × Span)) :
    (mk file ((key, span) :: entries)).find? k =
      if key = k then some span else (mk file entries).find? k := by
  by_cases h : key = k <;> simp [find?, h]

theorem find?_append (entries entries' : List (κ × Span)) (k : κ) :
    (mk file (entries ++ entries')).find? k =
      ((mk file entries).find? k).or ((mk file entries').find? k) := by
  simp [find?, Option.map_or]

/-- What is registered one step further down. -/
theorem find?_below (b b' : Branch) (p : Position) (entries : List (Position × Span)) :
    (mk file (entries.map (fun e => (b :: e.1, e.2)))).find? (b' :: p) =
      if b = b' then (mk file entries).find? p else none := by
  induction entries with
  | nil => simp [find?]
  | cons e entries ih =>
    rw [List.map_cons, find?_cons, find?_cons, ih]
    by_cases hb : b = b'
    · simp [hb]
    · simp [hb]

end SourceMap

namespace Outline

@[simp]
theorem at?_nil (o : Outline) : o.at? [] = some o.span := by
  cases o <;> rfl

/-- The source map of an outline finds what stands in the outline. -/
theorem find?_sourceMap (o : Outline) (file : SourceFile) (p : Position) :
    (o.sourceMap file).find? p = o.at? p := by
  rw [sourceMap]
  induction o generalizing p with
  | leaf s =>
    rw [entries, SourceMap.find?_cons]
    cases p with
    | nil => rfl
    | cons b p => cases b <;> rfl
  | unary s o ih =>
    rw [entries, SourceMap.find?_cons]
    cases p with
    | nil => rfl
    | cons b p =>
      rw [SourceMap.find?_below, ih]
      cases b <;> rfl
  | binary s l r ihl ihr =>
    rw [entries, SourceMap.find?_cons]
    cases p with
    | nil => rfl
    | cons b p =>
      rw [SourceMap.find?_append, SourceMap.find?_below, SourceMap.find?_below, ihl, ihr]
      cases b <;> simp [at?]

/-- Different steps down from the same formula go to the two sides of it. -/
theorem sides_of_ne {o : Outline} {b b' : Branch} {p q : Position} {s s' : Span}
    (hs : o.at? (b :: p) = some s) (hs' : o.at? (b' :: q) = some s') (hne : b ≠ b') :
    b = .left ∧ b' = .right ∨ b = .right ∧ b' = .left := by
  cases o <;> cases b <;> cases b' <;> simp_all [at?]

end Outline

namespace Grammar

variable {file : SourceFile} {i : Nat} {input rest : Input} {f g : Formula} {o : Outline}
  {s s' : Span} {p : Position}

/-- How a formula is read whose parts have at most `depth` levels of nesting. -/
inductive Level (file : SourceFile) (depth : Nat) : Input → Reading (Formula × Outline) → Prop
  | equality {input : Input} {r : Reading (Formula × Outline)}
      (whole : readEquality file (lookahead file input).span input = .ok r) :
      Level file depth input r
  | neg {s : Span} {input : Input} {r : Reading (Formula × Outline)}
      (body : readFormula file depth input = .ok r) :
      Level file depth (⟨.tilde, s⟩ :: input)
        ⟨(.neg r.value.1, .unary (s.join r.last) r.value.2), r.last, r.rest⟩
  | quantified {q : Quantifier} {s : Span} {input : Input} {v : Reading Variable}
      {r : Reading (Formula × Outline)} (bound : readQuantified file input = .ok v)
      (body : readFormula file depth v.rest = .ok r) :
      Level file depth (⟨quantifierLexeme q, s⟩ :: input)
        ⟨(.quantified q v.value r.value.1, .unary (s.join r.last) r.value.2), r.last, r.rest⟩
  | binary {s : Span} {input : Input} {l r : Reading (Formula × Outline)}
      {op : Reading Connective} {close : Reading Unit}
      (left : readFormula file depth input = .ok l) (middle : connective file l.rest = .ok op)
      (right : readFormula file depth op.rest = .ok r)
      (final : expect file .rightBracket .closingBracket r.rest = .ok close) :
      Level file depth (⟨.leftBracket, s⟩ :: input)
        ⟨(.binary op.value l.value.1 r.value.1,
          .binary (s.join close.last) l.value.2 r.value.2), close.last, close.rest⟩

theorem level_of_readFormula {depth : Nat} {r : Reading (Formula × Outline)}
    (h : readFormula file (depth + 1) input = .ok r) : Level file depth input r := by
  rw [readFormula] at h
  split at h
  · next hl =>
    simp only [bind_eq_ok_iff] at h
    obtain ⟨l, hleft, op, hop, r', hright, close, hclose, hr⟩ := h
    cases hr
    rw [eq_cons_of_lookahead hl (by decide)]
    exact .binary hleft hop hright hclose
  · next hl =>
    obtain ⟨f, hf, hr⟩ := bind_eq_ok_iff.mp h
    cases hr
    rw [eq_cons_of_lookahead hl (by decide)]
    exact .neg hf
  · next hl =>
    simp only [bind_eq_ok_iff] at h
    obtain ⟨v, hv, f, hf, hr⟩ := h
    cases hr
    rw [eq_cons_of_lookahead hl (by decide)]
    exact .quantified (q := .forAll) hv hf
  · next hl =>
    simp only [bind_eq_ok_iff] at h
    obtain ⟨v, hv, f, hf, hr⟩ := h
    cases hr
    rw [eq_cons_of_lookahead hl (by decide)]
    exact .quantified (q := .thereIs) hv hf
  · next hl =>
    refine .equality ?_
    rw [hl]
    exact h

/-- Some tokens were taken from the front, the last one with the given span. -/
inductive Taken : Input → Span → Input → Prop
  | last (t : Token Lexeme) (rest : Input) : Taken (t :: rest) t.span rest
  | more (t : Token Lexeme) {input rest : Input} {s : Span} (later : Taken input s rest) :
      Taken (t :: input) s rest

namespace Taken

theorem trans {between : Input} (h : Taken input s between) (h' : Taken between s' rest) :
    Taken input s' rest := by
  induction h with
  | last t between => exact .more t h'
  | more t later ih => exact .more t (ih h')

theorem exists_last (h : Taken input s rest) :
    ∃ front last, input = front ++ last :: rest ∧ last.span = s := by
  induction h with
  | last t rest => exact ⟨[], t, rfl, rfl⟩
  | more t later ih =>
    obtain ⟨front, last, rfl, hlast⟩ := ih
    exact ⟨t :: front, last, rfl, hlast⟩

theorem of_cons {kind : Lexeme} (h : input = ⟨kind, s⟩ :: rest) : Taken input s rest := by
  rw [h]
  exact .last ⟨kind, s⟩ rest

theorem of_lookahead {kind : Lexeme} (h : lookahead file input = ⟨kind, s⟩)
    (hkind : kind ≠ .endOfInput) : Taken input s input.tail :=
  .of_cons (eq_cons_of_lookahead h hkind)

theorem of_readTerm {depth : Nat} {r : Reading Term} (h : readTerm file depth input = .ok r) :
    Taken input r.last r.rest := by
  induction depth generalizing input r with
  | zero => cases h
  | succ depth ih =>
    rw [readTerm] at h
    split at h
    · next hl =>
      cases h
      exact .of_lookahead hl (by decide)
    · next hl =>
      obtain ⟨t, ht, hr⟩ := bind_eq_ok_iff.mp h
      cases hr
      have hargument : Taken input.tail t.last t.rest := ih ht
      exact (of_lookahead hl (by decide)).trans hargument
    · next hl =>
      obtain ⟨v, hv, hr⟩ := bind_eq_ok_iff.mp h
      cases hr
      exact .of_lookahead hl (by decide)
    · next hl =>
      simp only [bind_eq_ok_iff, operator_eq_ok_iff, expect_eq_ok_iff] at h
      obtain ⟨l, hleft, op, hop, r', hright, close, hclose, hr⟩ := h
      cases hr
      have hopen : Taken input _ input.tail := of_lookahead hl (by decide)
      have hoperator : Taken l.rest op.last op.rest := by
        rcases hop with ⟨hop, -⟩ | ⟨hop, -⟩
        · exact .of_cons hop
        · exact .of_cons hop
      exact hopen.trans ((ih hleft).trans (hoperator.trans ((ih hright).trans (.of_cons hclose))))
    · cases h
    · cases h

theorem of_readEquality {r : Reading (Formula × Outline)}
    (h : readEquality file s input = .ok r) : Taken input r.last r.rest := by
  simp only [readEquality, bind_eq_ok_iff, expect_eq_ok_iff] at h
  obtain ⟨l, hleft, eq, heq, r', hright, hr⟩ := h
  cases hr
  exact (of_readTerm hleft).trans ((of_cons heq).trans (of_readTerm hright))

theorem of_readQuantified {r : Reading Variable} (h : readQuantified file input = .ok r) :
    Taken input r.last r.rest := by
  obtain ⟨span, rfl, -⟩ := readQuantified_eq_ok_iff.mp h
  exact .more _ (.of_cons rfl)

theorem of_readFormula {depth : Nat} {r : Reading (Formula × Outline)}
    (h : readFormula file depth input = .ok r) : Taken input r.last r.rest := by
  induction depth generalizing input r with
  | zero => cases h
  | succ depth ih =>
    cases level_of_readFormula h with
    | equality whole => exact of_readEquality whole
    | neg body =>
      have hbody := ih body
      exact .more _ hbody
    | quantified bound body =>
      have hbody := (of_readQuantified bound).trans (ih body)
      exact .more _ hbody
    | binary left middle right final =>
      have hop := of_cons (connective_eq_ok_iff.mp middle)
      have hclose := of_cons (expect_eq_ok_iff.mp final)
      exact .more _ ((ih left).trans (hop.trans ((ih right).trans hclose)))

end Taken

/-- What was taken ends at a position from which on the rest stands. -/
theorem Standing.of_taken (h : Standing file i input) (taken : Taken input s rest) :
    ∃ j : Nat, i ≤ j ∧ s.stop = j ∧ Standing file j rest := by
  obtain ⟨front, last, rfl, rfl⟩ := taken.exists_last
  obtain ⟨hstart, j, hj, hrest⟩ := h.behind
  have hordered := last.span.ordered
  exact ⟨j, by omega, hj, hrest⟩

/-- The outline of a formula reaches from its first token to its last one. -/
theorem span_of_readFormula {depth : Nat} {r : Reading (Formula × Outline)}
    (h : readFormula file depth input = .ok r) :
    r.value.2.span = (lookahead file input).span.join r.last := by
  cases depth with
  | zero => cases h
  | succ depth =>
    cases level_of_readFormula h with
    | equality whole =>
      simp only [readEquality, bind_eq_ok_iff] at whole
      obtain ⟨l, -, eq, -, r', -, hr⟩ := whole
      cases hr
      rfl
    | neg body => rfl
    | quantified bound body => rfl
    | binary left middle right final => rfl

/-- A formula that was read from tokens that stand in the text from position `i`
on: its span begins there or later and covers its text, and the remaining tokens
stand from position `j` on, where the span ends. -/
structure Placed (file : SourceFile) (i : Nat) (r : Reading (Formula × Outline)) (j : Nat) :
    Prop where
  covers : Covers file r.value.2.span r.value.1
  start : (i : Int) ≤ r.value.2.span.start
  stop : r.value.2.span.stop = j
  last : r.last.stop = j
  standing : Standing file j r.rest

theorem placed_of_readFormula {depth : Nat} {r : Reading (Formula × Outline)}
    (h : readFormula file depth input = .ok r) (standing : Standing file i input) :
    ∃ j, Placed file i r j := by
  obtain ⟨front, last, hinput, hlast⟩ := (Taken.of_readFormula h).exists_last
  have hspell : (front ++ [last]).map (spell file) = formulaSymbols r.value.1 := by
    have hmap := map_of_readFormula h
    rw [hinput, List.append_cons, List.map_append] at hmap
    exact List.append_cancel_right hmap
  have hspan := span_of_readFormula h
  rw [hinput, ← hlast] at hspan
  rw [hinput] at standing
  obtain ⟨-, j, hj, hbehind⟩ := standing.behind
  obtain ⟨gap, core, -, -, -, hstart, -⟩ := standing.covered
  obtain ⟨hjoinStart, hjoinStop⟩ := standing.join_ends
  refine ⟨j, ?_, ?_, ?_, ?_, hbehind⟩
  · rw [hspan]
    exact standing.covers hspell
  · rw [hspan, hjoinStart, hstart]
    omega
  · rw [hspan, hjoinStop, hj]
  · rw [← hlast, hj]

/-- The outline of a formula, every span covering what it belongs to and lying
within the one above, the two sides of a connective apart. -/
inductive Fits (file : SourceFile) : Formula → Outline → Prop
  | equality {l r : Term} {s : Span} (covers : Covers file s (.equality l r)) :
      Fits file (.equality l r) (.leaf s)
  | neg {f : Formula} {s : Span} {o : Outline} (covers : Covers file s (.neg f))
      (within : o.span.Within s) (body : Fits file f o) : Fits file (.neg f) (.unary s o)
  | quantified {q : Quantifier} {v : Variable} {f : Formula} {s : Span} {o : Outline}
      (covers : Covers file s (.quantified q v f)) (within : o.span.Within s)
      (body : Fits file f o) : Fits file (.quantified q v f) (.unary s o)
  | binary {op : Connective} {f g : Formula} {s : Span} {l r : Outline}
      (covers : Covers file s (.binary op f g)) (withinLeft : l.span.Within s)
      (withinRight : r.span.Within s) (apart : l.span.stop < r.span.start)
      (left : Fits file f l) (right : Fits file g r) : Fits file (.binary op f g) (.binary s l r)

/-- Bracket, left side, connective, right side and bracket follow one another, so the
spans of the two sides are apart. -/
theorem fits_of_readFormula {depth : Nat} {r : Reading (Formula × Outline)}
    (h : readFormula file depth input = .ok r) (standing : Standing file i input) :
    Fits file r.value.1 r.value.2 := by
  induction depth generalizing input i r with
  | zero => cases h
  | succ depth ih =>
    obtain ⟨j, hplaced⟩ := placed_of_readFormula h standing
    have hcovers := hplaced.covers
    cases level_of_readFormula h with
    | equality whole =>
      simp only [readEquality, bind_eq_ok_iff] at whole
      obtain ⟨l, -, eq, -, r', -, hr⟩ := whole
      cases hr
      exact .equality hcovers
    | @neg s input r body =>
      obtain ⟨-, -, k, hk, hlater⟩ := standing.step
      obtain ⟨m, hbody⟩ := placed_of_readFormula body hlater
      have hwithin : r.value.2.span.Within (s.join r.last) := by
        refine Span.within_join (standing.start_lt_stop (by decide)) ?_ ?_
        · exact hk.trans_le hbody.start
        · rw [hbody.stop, hbody.last]
      exact .neg hcovers hwithin (ih body hlater)
    | @quantified q s input v r bound body =>
      obtain ⟨-, -, k, hk, hlater⟩ := standing.step
      obtain ⟨m, hm, -, hrest⟩ := hlater.of_taken (.of_readQuantified bound)
      obtain ⟨n, hbody⟩ := placed_of_readFormula body hrest
      have hwithin : r.value.2.span.Within (s.join r.last) := by
        refine Span.within_join (standing.start_lt_stop (by cases q <;> decide)) ?_ ?_
        · have hstart := hbody.start
          omega
        · rw [hbody.stop, hbody.last]
      exact .quantified hcovers hwithin (ih body hrest)
    | @binary s input l r op close left middle right final =>
      have hlong : s.start < s.stop := standing.start_lt_stop (by decide)
      obtain ⟨-, -, k, hk, hlater⟩ := standing.step
      obtain ⟨m, hleft⟩ := placed_of_readFormula left hlater
      have hmiddle := hleft.standing
      rw [connective_eq_ok_iff.mp middle] at hmiddle
      have hop : op.last.start < op.last.stop :=
        hmiddle.start_lt_stop (by cases op.value <;> decide)
      obtain ⟨hopStart, -, n, hn, hbehind⟩ := hmiddle.step
      obtain ⟨m', hright⟩ := placed_of_readFormula right hbehind
      have hfinal := hright.standing
      rw [expect_eq_ok_iff.mp final] at hfinal
      obtain ⟨hclose, -⟩ := hfinal.step
      have hfirst : s.stop ≤ l.value.2.span.start := hk.trans_le hleft.start
      have hapart : l.value.2.span.stop < r.value.2.span.start := by
        have hm := hleft.stop
        have hright' := hright.start
        omega
      have hlast : r.value.2.span.stop ≤ close.last.stop := by
        have hm' := hright.stop
        have hordered := close.last.ordered
        omega
      have hl := l.value.2.span.ordered
      have hr := r.value.2.span.ordered
      refine .binary hcovers ?_ ?_ hapart (ih left hlater) (ih right hbehind)
      · exact Span.within_join hlong hfirst (by omega)
      · exact Span.within_join hlong (by omega) hlast

theorem fits_of_outlinedFormula (h : outlinedFormula file = .ok (f, o)) : Fits file f o := by
  simp only [outlinedFormula, bind_eq_ok_iff, tokens_eq_ok_iff, complete_eq_ok_iff] at h
  obtain ⟨input, ⟨ts, hcut, rfl⟩, r, hr, -, hvalue⟩ := h
  have hfits := fits_of_readFormula hr (hcut.standing List.drop_zero)
  rw [hvalue] at hfits
  exact hfits

namespace Fits

theorem covers_span (h : Fits file f o) : Covers file o.span f := by
  cases h with
  | equality covers => exact covers
  | neg covers _ _ => exact covers
  | quantified covers _ _ => exact covers
  | binary covers _ _ _ _ _ => exact covers

/-- One step down there is a part with an outline of its own, or nothing at all. -/
theorem step_down (h : Fits file f o) (b : Branch) :
    (∃ g o', Fits file g o' ∧ o'.span.Within o.span ∧
      ∀ q, f.at? (b :: q) = g.at? q ∧ o.at? (b :: q) = o'.at? q) ∨
      ∀ q, f.at? (b :: q) = none ∧ o.at? (b :: q) = none := by
  cases h with
  | equality covers => cases b <;> exact .inr (fun q => ⟨rfl, rfl⟩)
  | neg covers within body =>
    cases b with
    | body => exact .inl ⟨_, _, body, within, fun q => ⟨rfl, rfl⟩⟩
    | left | right => exact .inr (fun q => ⟨rfl, rfl⟩)
  | quantified covers within body =>
    cases b with
    | body => exact .inl ⟨_, _, body, within, fun q => ⟨rfl, rfl⟩⟩
    | left | right => exact .inr (fun q => ⟨rfl, rfl⟩)
  | binary covers withinLeft withinRight apart left right =>
    cases b with
    | left => exact .inl ⟨_, _, left, withinLeft, fun q => ⟨rfl, rfl⟩⟩
    | right => exact .inl ⟨_, _, right, withinRight, fun q => ⟨rfl, rfl⟩⟩
    | body => exact .inr (fun q => ⟨rfl, rfl⟩)

/-- The same any number of steps down. -/
theorem at_position (h : Fits file f o) (p : Position) :
    (∃ g o', f.at? p = some g ∧ Fits file g o' ∧ ∀ q, o.at? (p ++ q) = o'.at? q) ∨
      f.at? p = none ∧ ∀ q, o.at? (p ++ q) = none := by
  induction p generalizing f o with
  | nil => exact .inl ⟨f, o, f.at?_nil, h, fun q => rfl⟩
  | cons b p ih =>
    rcases h.step_down b with ⟨g, o', hfits, -, hparts⟩ | hnone
    · have houtline : ∀ q, o.at? (b :: p ++ q) = o'.at? (p ++ q) := fun q => (hparts (p ++ q)).2
      simp only [(hparts p).1, houtline]
      exact ih hfits
    · exact .inr ⟨(hnone p).1, fun q => (hnone (p ++ q)).2⟩

theorem exists_part {q : Position} (h : Fits file f o) (hs : o.at? (p ++ q) = some s) :
    ∃ g o', Fits file g o' ∧ ∀ q, o.at? (p ++ q) = o'.at? q := by
  rcases h.at_position p with ⟨g, o', -, hpart, hsame⟩ | ⟨-, hnone⟩
  · exact ⟨g, o', hpart, hsame⟩
  · rw [hnone] at hs
    cases hs

theorem exists_covers (h : Fits file f o) (hg : f.at? p = some g) :
    ∃ s, o.at? p = some s ∧ Covers file s g := by
  rcases h.at_position p with ⟨g', o', hg', hpart, hsame⟩ | ⟨hnone, -⟩
  · rw [hg, Option.some.injEq] at hg'
    subst hg'
    refine ⟨o'.span, ?_, hpart.covers_span⟩
    rw [← o'.at?_nil, ← hsame, List.append_nil]
  · rw [hg] at hnone
    cases hnone

theorem exists_child {b : Branch} (h : Fits file f o) (hs : o.at? (b :: p) = some s) :
    ∃ g o', Fits file g o' ∧ o'.span.Within o.span ∧ ∀ q, o.at? (b :: q) = o'.at? q := by
  rcases h.step_down b with ⟨g, o', hchild, hwithin, hparts⟩ | hnone
  · exact ⟨g, o', hchild, hwithin, fun q => (hparts q).2⟩
  · rw [(hnone p).2] at hs
    cases hs

/-- The span of a part lies within that of the formula. -/
theorem within {b : Branch} (h : Fits file f o) (hs : o.at? (b :: p) = some s) :
    s.Within o.span := by
  induction p generalizing f o b with
  | nil =>
    obtain ⟨g, o', hchild, hwithin, hsame⟩ := h.exists_child hs
    rw [hsame, Outline.at?_nil, Option.some.injEq] at hs
    rwa [← hs]
  | cons b' p ih =>
    obtain ⟨g, o', hchild, hwithin, hsame⟩ := h.exists_child hs
    rw [hsame] at hs
    exact (ih hchild hs).trans hwithin

theorem bounds (h : Fits file f o) (hs : o.at? p = some s) :
    o.span.start ≤ s.start ∧ s.stop ≤ o.span.stop := by
  cases p with
  | nil =>
    rw [Outline.at?_nil, Option.some.injEq] at hs
    rw [hs]
    exact ⟨le_rfl, le_rfl⟩
  | cons b p =>
    obtain ⟨hstart, hstop⟩ := h.within hs
    exact ⟨hstart.le, hstop⟩

/-- What stands on the left of a connective ends before anything on the right
begins. -/
theorem apart {q : Position} (h : Fits file f o) (hleft : o.at? (.left :: p) = some s)
    (hright : o.at? (.right :: q) = some s') : s.stop < s'.start := by
  cases h with
  | equality covers => cases hleft
  | neg covers within body => cases hleft
  | quantified covers within body => cases hleft
  | binary covers withinLeft withinRight apart left right =>
    have hl := (left.bounds hleft).2
    have hr := (right.bounds hright).1
    omega

/-- No two positions have the same span. If they stood on different sides of a connective,
it would end before it begins. -/
theorem position_unique {q : Position} (h : Fits file f o) (hp : o.at? p = some s)
    (hq : o.at? q = some s) : p = q := by
  have below : ∀ {f o b p}, Fits file f o → o.at? (b :: p) ≠ some o.span := by
    intro f o b p h hroot
    exact lt_irrefl _ (h.within hroot).1
  induction p generalizing q f o with
  | nil =>
    cases q with
    | nil => rfl
    | cons b' q =>
      rw [Outline.at?_nil] at hp
      exact absurd (hq.trans hp.symm) (below h)
  | cons b p ih =>
    cases q with
    | nil =>
      rw [Outline.at?_nil] at hq
      exact absurd (hp.trans hq.symm) (below h)
    | cons b' q =>
      by_cases hb : b = b'
      · subst hb
        obtain ⟨g, o', hchild, -, hsame⟩ := h.exists_child hp
        rw [hsame] at hp hq
        rw [ih hchild hp hq]
      · have hordered := s.ordered
        rcases Outline.sides_of_ne hp hq hb with ⟨rfl, rfl⟩ | ⟨rfl, rfl⟩
        · have hapart := h.apart hp hq
          omega
        · have hapart := h.apart hq hp
          omega

end Fits

end Grammar

namespace Formula

theorem read_of_malformed {file : SourceFile} {f : Formula} {o : Outline} {m : Malformation}
    (h : outlinedFormula file = .ok (f, o)) (hm : f.checkWellFormed = .error m) :
    Formula.read file = .error (.malformed m (o.sourceMap file)) := by
  rw [Formula.read, h]
  dsimp only
  rw [hm]

/-- A text is read as a formula, well quantified or not, exactly if it is the text
of the formula with blanks added, none of them in front of a prime. Then the
source map has a span for each occurrence of a subformula. The span lies in the
text, begins and ends with a character that is not blank, and covers the text of
the subformula and otherwise blanks; it contains the spans of all that stands
below, each of which begins later; and the spans of what stands on the left of a
connective end before those of what stands on the right begin. If the formula is
not well quantified, the complaint is about the span of the occurrence at which
the check failed, and no other occurrence has this span. -/
theorem source_map_exact (file : SourceFile) (f : Formula) :
    ((∃ o, outlinedFormula file = .ok (f, o)) ↔
      withoutBlanks file.contents = f.text.toList ∧ PrimesAttached file.contents) ∧
    ∀ o, outlinedFormula file = .ok (f, o) →
      (∀ p g, f.at? p = some g →
        ∃ s, (o.sourceMap file).find? p = some s ∧ Covers file s g) ∧
      (∀ p b q s s', (o.sourceMap file).find? p = some s →
        (o.sourceMap file).find? (p ++ b :: q) = some s' → s'.Within s) ∧
      (∀ p q q' s s', (o.sourceMap file).find? (p ++ .left :: q) = some s →
        (o.sourceMap file).find? (p ++ .right :: q') = some s' → s.stop < s'.start) ∧
      ∀ m, f.checkWellFormed = .error m →
        Formula.read file = .error (.malformed m (o.sourceMap file)) ∧
        f.at? m.position = some m.formula ∧ f.ViolatedAt m.position m.culprit m.violation ∧
        ∃ s, (o.sourceMap file).find? m.position = some s ∧
          (ParseError.malformed m (o.sourceMap file)).located = ⟨file, s, m.reason⟩ ∧
          ∀ p, (o.sourceMap file).find? p = some s → p = m.position := by
  constructor
  · rw [text, String.toList_ofList]
    exact exists_outlinedFormula_eq_ok_iff
  intro o h
  have hfits := fits_of_outlinedFormula h
  simp only [Outline.find?_sourceMap]
  refine ⟨fun p g hg => hfits.exists_covers hg, ?_, ?_, ?_⟩
  · intro p b q s s' hs hs'
    obtain ⟨g, part, hpart, hsame⟩ := hfits.exists_part hs'
    rw [← List.append_nil p, hsame, Outline.at?_nil, Option.some.injEq] at hs
    rw [hsame] at hs'
    rw [← hs]
    exact hpart.within hs'
  · intro p q q' s s' hs hs'
    obtain ⟨g, part, hpart, hsame⟩ := hfits.exists_part hs
    rw [hsame] at hs hs'
    exact hpart.apart hs hs'
  · intro m hm
    obtain ⟨hlocated, hviolated⟩ := violated_of_checkWellFormed hm
    obtain ⟨s, hs, -⟩ := hfits.exists_covers hlocated
    refine ⟨read_of_malformed h hm, hlocated, hviolated, s, hs, ?_, ?_⟩
    · rw [ParseError.located, SourceMap.syntaxError, Outline.find?_sourceMap, hs]
      rfl
    · intro p hp
      exact hfits.position_unique hp hs

/-- The same subformula twice, of which only the second one stands below another
quantifier of its variable. -/
theorem source_map_exact_repeated :
    let a := Variable.austere 0
    let part := thereIs a (equality (.var a) .zero)
    let f := and part (forAll a (neg part))
    let file := SourceFile.ofString "formula" "[ Ea:a=0 &\tAa:~Ea: a=0 ]"
    let o := Outline.binary (.ofStart 0 24) (.unary (.ofStart 2 6) (.leaf (.ofStart 5 3)))
      (.unary (.ofStart 11 11)
        (.unary (.ofStart 14 8) (.unary (.ofStart 15 7) (.leaf (.ofStart 19 3)))))
    outlinedFormula file = .ok (f, o) ∧ Covers file (.ofStart 2 6) part ∧
      ∃ m, Formula.read file = .error (.malformed m (o.sourceMap file)) ∧
        m.formula = part ∧ f.RequantifiedAt [.right, .body, .body] a ∧
        (ParseError.malformed m (o.sourceMap file)).located = ⟨file, .ofStart 15 7, m.reason⟩ := by
  intro a part f file o
  have houtline : outlinedFormula file = .ok (f, o) := by decide
  have hm : f.checkWellFormed =
      .error ⟨[.right, .body, .body], part, a, .requantified⟩ := by decide
  obtain ⟨hcovers, -, -, hblamed⟩ := (source_map_exact file f).2 o houtline
  obtain ⟨s, hs, hpart⟩ := hcovers [.left] part rfl
  cases hs
  obtain ⟨hread, -, hviolated, s, hs, hlocated, -⟩ := hblamed _ hm
  cases hs
  exact ⟨houtline, hpart, _, hread, rfl, hviolated, hlocated⟩

end Formula

end Typographical
