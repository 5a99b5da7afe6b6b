import Mathlib.Data.Int.Order.Basic
import Typographical.Proofs.Reading

/-!
# Where tokens stand in a text

The tokens of a text stand in it in their order, each where its span says, with
nothing but blanks between one and the next. From its first token to its last
one, then, a formula covers its own text and the blanks in between.
-/

namespace Typographical

@[ext]
theorem Span.ext {s t : Span} (start : s.start = t.start) (stop : s.stop = t.stop) : s = t := by
  cases s
  cases t
  simp_all

namespace Grammar

variable {file : SourceFile} {i : Nat} {cs gap : List Char} {last : Token Lexeme}
  {ts front rest : Input} {s : Span} {f : Formula}

/-- The characters of tokens, with blanks between one token and the next. -/
inductive Spread (file : SourceFile) : Input → List Char → Prop
  | single (t : Token Lexeme) : Spread file [t] (spell file t).chars
  | cons (t : Token Lexeme) {ts : Input} {gap cs : List Char}
      (blank : ∀ c ∈ gap, isBlank c = true) (more : Spread file ts cs) :
      Spread file (t :: ts) ((spell file t).chars ++ (gap ++ cs))

theorem withoutBlanks_append (cs ds : List Char) :
    withoutBlanks (cs ++ ds) = withoutBlanks cs ++ withoutBlanks ds := List.filter_append ..

theorem withoutBlanks_eq_nil (blank : ∀ c ∈ gap, isBlank c = true) : withoutBlanks gap = [] := by
  rw [withoutBlanks, List.filter_eq_nil_iff]
  intro c hc
  simp [blank c hc]

theorem Symbol.Proper.not_isBlank {symbol : Symbol} (h : symbol.Proper) :
    ∀ c ∈ symbol.chars, isBlank c = false := by
  have hone := not_isBlank_of_proper (List.forall_mem_singleton.mpr h)
  simpa using hone

namespace Spread

theorem text (h : Spread file ts cs) (proper : ∀ t ∈ ts, (spell file t).Proper) :
    withoutBlanks cs = (ts.map (spell file)).flatMap Symbol.chars := by
  induction h with
  | single t =>
    have ht := proper t (List.mem_singleton_self t)
    simpa using withoutBlanks_eq_self ht.not_isBlank
  | cons t blank more ih =>
    obtain ⟨ht, hts⟩ := List.forall_mem_cons.mp proper
    rw [withoutBlanks_append, withoutBlanks_append, withoutBlanks_eq_nil blank, ih hts,
      withoutBlanks_eq_self ht.not_isBlank]
    rfl

theorem ne_nil (h : Spread file ts cs) (proper : ∀ t ∈ ts, (spell file t).Proper) : cs ≠ [] := by
  cases h with
  | single t => exact (proper t (List.mem_singleton_self t)).chars_ne_nil
  | cons t blank more =>
    have ht := (proper t (List.mem_cons_self ..)).chars_ne_nil
    exact List.append_ne_nil_of_left_ne_nil ht _

theorem head_not_blank (h : Spread file ts cs) (proper : ∀ t ∈ ts, (spell file t).Proper) :
    ∃ c ∈ cs.head?, isBlank c = false := by
  have hchars : ∀ t ∈ ts, ∃ c rest, (spell file t).chars = c :: rest ∧ isBlank c = false := by
    intro t ht
    obtain ⟨c, rest, hc⟩ := List.exists_cons_of_ne_nil (proper t ht).chars_ne_nil
    exact ⟨c, rest, hc, (proper t ht).not_isBlank c (by rw [hc]; exact List.mem_cons_self ..)⟩
  cases h with
  | single t =>
    obtain ⟨c, rest, hc, hblank⟩ := hchars t (List.mem_singleton_self t)
    exact ⟨c, by rw [hc]; rfl, hblank⟩
  | cons t blank more =>
    obtain ⟨c, rest, hc, hblank⟩ := hchars t (List.mem_cons_self ..)
    exact ⟨c, by rw [hc]; rfl, hblank⟩

theorem last_not_blank (h : Spread file ts cs) (proper : ∀ t ∈ ts, (spell file t).Proper) :
    ∃ c ∈ cs.getLast?, isBlank c = false := by
  induction h with
  | single t =>
    have ht := proper t (List.mem_singleton_self t)
    have hlast := List.getLast?_eq_some_getLast ht.chars_ne_nil
    exact ⟨_, hlast, ht.not_isBlank _ (List.mem_of_getLast? hlast)⟩
  | cons t blank more ih =>
    have hts := (List.forall_mem_cons.mp proper).2
    obtain ⟨c, hc, hblank⟩ := ih hts
    refine ⟨c, ?_, hblank⟩
    rw [List.getLast?_append_of_ne_nil _ (List.append_ne_nil_of_right_ne_nil _ (more.ne_nil hts)),
      List.getLast?_append_of_ne_nil _ (more.ne_nil hts)]
    exact hc

end Spread

/-- From position `i` on the tokens stand in the text one behind the other, each
where its span says, with nothing but blanks in front. -/
inductive Standing (file : SourceFile) : Nat → Input → Prop
  | nil (i : Nat) : Standing file i []
  | cons {i j : Nat} (gap : List Char) {t : Token Lexeme} {ts : Input}
      (blank : ∀ c ∈ gap, isBlank c = true)
      (text : gap ++ (spell file t).chars <+: file.contents.drop i)
      (span : t.span = .ofStart (i + gap.length) (spell file t).chars.length)
      (stop : i + gap.length + (spell file t).chars.length = j) (later : Standing file j ts) :
      Standing file i (t :: ts)

theorem drop_eq_append (h : cs <+: file.contents.drop i) :
    file.contents.drop i = cs ++ file.contents.drop (i + cs.length) := by
  obtain ⟨rest, hrest⟩ := h
  rw [← List.drop_drop, ← hrest, List.drop_left]

theorem Standing.behind_blanks (blank : ∀ c ∈ gap, isBlank c = true)
    (text : gap <+: file.contents.drop i) (h : Standing file (i + gap.length) ts) :
    Standing file i ts := by
  generalize hk : i + gap.length = k at h
  cases h with
  | nil _ => exact .nil i
  | @cons _ j gap' t ts blank' text' span stop later =>
    refine .cons (gap ++ gap') ?_ ?_ ?_ ?_ later
    · exact List.forall_mem_append.mpr ⟨blank, blank'⟩
    · rw [List.append_assoc, drop_eq_append text, hk]
      exact (List.prefix_append_right_inj gap).mpr text'
    · rw [span, ← hk, List.length_append, Nat.add_assoc]
    · rw [← stop, ← hk, List.length_append, ← Nat.add_assoc]

/-- A token with no blanks in front of it. -/
theorem Standing.here {kind : Lexeme} (text : cs <+: file.contents.drop i)
    (hchars : (spell file ⟨kind, .ofStart i cs.length⟩).chars = cs)
    (later : Standing file (i + cs.length) ts) :
    Standing file i (⟨kind, .ofStart i cs.length⟩ :: ts) := by
  refine .cons [] (List.forall_mem_nil _) ?_ ?_ ?_ later
  · rw [hchars]
    exact text
  · rw [hchars]
    rfl
  · rw [hchars]
    rfl

/-- The visible tokens of a text that was cut into pieces stand in it. -/
theorem Cut.standing (h : Cut i cs ts) (hcs : file.contents.drop i = cs) :
    Standing file i (visible ts) := by
  induction h with
  | stop i =>
    have htext : [] <+: file.contents.drop i := List.nil_prefix
    exact .here htext rfl (.nil _)
  | @next i n c rest kind ts first more ih =>
    have hlater : Standing file (i + n) (visible ts) := by
      apply ih
      rw [← List.drop_drop, hcs]
    obtain ⟨run, hrun⟩ : ∃ run, run = (c :: rest).take n := ⟨_, rfl⟩
    have hlength : run.length = n := by
      rw [hrun, List.length_take, List.length_cons]
      exact Nat.min_eq_left (piece_bounds first).2
    have htext : run <+: file.contents.drop i := by
      rw [hcs, hrun]
      exact List.take_prefix n _
    subst hlength
    rcases piece_cases first with ⟨hmark, hone⟩ | ⟨hblank, rfl, hlong⟩ | ⟨hlower, rfl, hlong⟩
    · obtain ⟨-, -, -, hchars, hname, hkind, -⟩ := marks_spec hmark
      rw [visible_cons_of_ne hkind]
      refine .here htext ?_ hlater
      rw [spell_eq_mark_iff.mpr ⟨rfl, hname⟩, hrun, hone]
      exact hchars
    · rw [visible_cons_of_blank rfl]
      refine .behind_blanks ?_ htext hlater
      rw [hrun, hlong, take_run]
      exact List.forall_mem_cons.mpr ⟨hblank, fun d hd => List.mem_takeWhile_imp hd⟩
    · rw [visible_cons_of_ne (by simp)]
      refine .here htext ?_ hlater
      rw [spell_eq_name_iff.mpr ⟨rfl, rfl⟩, Symbol.chars, slice_ofStart, hcs]
      exact hrun.symm

namespace Standing

/-- Where the first token stands, and from where on the others do. -/
theorem step {kind : Lexeme} (h : Standing file i (⟨kind, s⟩ :: ts)) :
    (i : Int) ≤ s.start ∧ s.stop = s.start + (spell file ⟨kind, s⟩).chars.length ∧
      ∃ j : Nat, s.stop = j ∧ Standing file j ts := by
  obtain _ | @⟨_, j, gap, _, _, blank, text, span, stop, later⟩ := h
  have hstart : s.start = (i + gap.length : Nat) := congrArg Span.start span
  have hstop : s.stop = s.start + (spell file ⟨kind, s⟩).chars.length := by
    rw [hstart]
    exact congrArg Span.stop span
  exact ⟨by omega, hstop, j, by omega, later⟩

theorem start_lt_stop {kind : Lexeme} (h : Standing file i (⟨kind, s⟩ :: ts))
    (hkind : kind.chars ≠ []) : s.start < s.stop := by
  have hname : kind ≠ .name := by
    rintro rfl
    exact hkind rfl
  obtain ⟨-, hstop, -⟩ := h.step
  rw [spell_eq_mark_iff.mpr ⟨rfl, hname⟩] at hstop
  have hlength : 0 < kind.chars.length := List.length_pos_iff.mpr hkind
  simp only [Symbol.chars] at hstop
  omega

/-- The tokens behind one that stands in the text begin where it ends. -/
theorem behind (h : Standing file i (front ++ last :: rest)) :
    (i : Int) ≤ last.span.start ∧ ∃ j : Nat, last.span.stop = j ∧ Standing file j rest := by
  induction front generalizing i with
  | nil =>
    obtain ⟨hstart, -, hlater⟩ := h.step
    exact ⟨hstart, hlater⟩
  | cons t front ih =>
    obtain ⟨hstart, hstop, j, hj, hlater⟩ := h.step
    obtain ⟨hlast, hbehind⟩ := ih hlater
    exact ⟨by omega, hbehind⟩

/-- From the first token to the last one, the text is made of tokens and blanks. -/
theorem covered (h : Standing file i (front ++ last :: rest)) :
    ∃ gap core, gap ++ core <+: file.contents.drop i ∧ (∀ c ∈ gap, isBlank c = true) ∧
      Spread file (front ++ [last]) core ∧
      (lookahead file (front ++ last :: rest)).span.start = (i + gap.length : Nat) ∧
      last.span.stop = (i + gap.length + core.length : Nat) := by
  induction front generalizing i with
  | nil =>
    obtain _ | @⟨_, j, gap, _, _, blank, text, span, stop, later⟩ := h
    refine ⟨gap, _, text, blank, .single last, ?_, ?_⟩
    · change last.span.start = _
      rw [span]
      rfl
    · rw [span]
      rfl
  | cons t front ih =>
    obtain _ | @⟨_, j, gap, _, _, blank, text, span, stop, later⟩ := h
    obtain ⟨gap', core, htext, hblank, hspread, -, hstop⟩ := ih later
    have hdrop := drop_eq_append text
    rw [List.length_append, ← Nat.add_assoc, stop] at hdrop
    refine ⟨gap, (spell file t).chars ++ (gap' ++ core), ?_, blank, .cons t hblank hspread, ?_, ?_⟩
    · rw [← List.append_assoc, hdrop]
      exact (List.prefix_append_right_inj _).mpr htext
    · change t.span.start = _
      rw [span]
      rfl
    · rw [hstop, ← stop]
      simp only [List.length_append]
      omega

/-- Joining the first token with the last one gives everything in between. -/
theorem join_ends (h : Standing file i (front ++ last :: rest)) :
    let first := lookahead file (front ++ last :: rest)
    (first.span.join last.span).start = first.span.start ∧
      (first.span.join last.span).stop = last.span.stop := by
  cases front with
  | nil => exact ⟨min_self _, max_self _⟩
  | cons t front =>
    obtain ⟨-, hlength, j, hj, hlater⟩ := h.step
    have hlast := hlater.behind.1
    have hordered := last.span.ordered
    have hstart : t.span.start ≤ last.span.start := by omega
    have hstop : t.span.stop ≤ last.span.stop := by omega
    exact ⟨min_eq_left hstart, max_eq_right hstop⟩

end Standing

/-- The span lies in the file, it begins and ends with characters that are not
blank, and apart from blanks it covers the text of the formula. -/
structure Covers (file : SourceFile) (span : Span) (g : Formula) : Prop where
  start_nonneg : 0 ≤ span.start
  stop_le : span.stop ≤ file.length
  begins : ∃ c ∈ (file.slice span).head?, isBlank c = false
  ends : ∃ c ∈ (file.slice span).getLast?, isBlank c = false
  text : withoutBlanks (file.slice span) = g.text.toList

theorem Standing.covers (h : Standing file i (front ++ last :: rest))
    (hf : (front ++ [last]).map (spell file) = formulaSymbols f) :
    Covers file ((lookahead file (front ++ last :: rest)).span.join last.span) f := by
  have hproper : ∀ t ∈ front ++ [last], (spell file t).Proper := by
    intro t ht
    refine proper_formulaSymbols f _ ?_
    rw [← hf]
    exact List.mem_map_of_mem ht
  obtain ⟨gap, core, ⟨more, hmore⟩, -, hspread, hstart, hstop⟩ := h.covered
  obtain ⟨hjoinStart, hjoinStop⟩ := h.join_ends
  have hspan : (lookahead file (front ++ last :: rest)).span.join last.span =
      .ofStart (i + gap.length) core.length :=
    Span.ext (hjoinStart.trans hstart) (hjoinStop.trans hstop)
  have hcore : file.slice (.ofStart (i + gap.length) core.length) = core := by
    rw [slice_ofStart, ← List.drop_drop, ← hmore, List.append_assoc, List.drop_left,
      List.take_left]
  have hlength := congrArg List.length hmore
  have hsome := List.length_pos_iff.mpr (hspread.ne_nil hproper)
  simp only [List.length_append, List.length_drop] at hlength
  rw [hspan]
  refine ⟨Int.natCast_nonneg _, ?_, ?_, ?_, ?_⟩
  · change ((i + gap.length : Nat) : Int) + core.length ≤ file.contents.length
    omega
  · rw [hcore]
    exact hspread.head_not_blank hproper
  · rw [hcore]
    exact hspread.last_not_blank hproper
  · rw [hcore, hspread.text hproper, hf, chars_formulaSymbols, Formula.text,
      String.toList_ofList]

end Grammar

end Typographical
