import Typographical.CommandLine.Report
import Typographical.Proofs.Complaints
import Typographical.Proofs.Outlines

/-!
# The line that a complaint is about

Looking for a position, a text is passed character by character. What has been
passed ends with the beginning of a line, which holds no line break. When the
position or the end of the text is reached, that line is completed with what
follows up to the next line break. So the position is on the line, or at its end,
and a complaint never points to a place before the line it shows.

Nothing is claimed about how wide characters are.
-/

namespace Typographical

namespace Line

variable {cs before rest : List Char} {i : Nat} {l : Line}

/-- The line of a text that a position is on: it is numbered by the line breaks
before the position, it begins behind the last of them or with the text, and it
goes on to the next line break or to the end. -/
structure Encloses (l : Line) (cs : List Char) (i : Nat) : Prop where
  number : l.number = 1 + (cs.take i).count '\n'
  start : ∃ before rest, cs.take i = before ++ rest ∧ l.start = before.length ∧
    (before = [] ∨ before.getLast? = some '\n') ∧ '\n' ∉ rest
  content : l.content = (cs.drop l.start).takeWhile (· ≠ '\n')
  start_le : l.start ≤ i
  le_stop : i ≤ l.start + l.length

/-- A line that is completed behind the part of it that has been passed. -/
theorem encloses_append {begun : List Char}
    (breaks : before = [] ∨ before.getLast? = some '\n') (unbroken : '\n' ∉ begun)
    (rest : List Char) :
    (⟨begun ++ rest.takeWhile (· ≠ '\n'), 1 + before.count '\n', before.length⟩ : Line).Encloses
      (before ++ (begun ++ rest)) (before.length + begun.length) := by
  have htake : (before ++ (begun ++ rest)).take (before.length + begun.length) =
      before ++ begun := by
    rw [← List.append_assoc, ← List.length_append, List.take_left]
  have hpassed : ∀ c ∈ begun, decide (c ≠ '\n') = true := by
    intro c hc
    exact decide_eq_true fun h => unbroken (h ▸ hc)
  refine ⟨?_, ⟨before, begun, htake, rfl, breaks, unbroken⟩, ?_, Nat.le_add_right _ _, ?_⟩
  · rw [htake, List.count_append, List.count_eq_zero.mpr unbroken]
    rfl
  · rw [List.drop_left, List.takeWhile_append_of_pos hpassed]
  · change before.length + begun.length ≤ before.length + (begun ++ _).length
    rw [List.length_append]
    omega

/-- The part of the line that has been passed is kept in reverse order. -/
theorem encloses_locate {target : Nat} (before seen rest : List Char)
    (breaks : before = [] ∨ before.getLast? = some '\n') (unbroken : '\n' ∉ seen)
    (ahead : before.length + seen.length ≤ target) :
    (locate target rest (before.length + seen.length) (1 + before.count '\n') seen).Encloses
      (before ++ (seen.reverse ++ rest))
      (min target (before ++ (seen.reverse ++ rest)).length) := by
  induction rest generalizing before seen with
  | nil =>
    have hline := encloses_append breaks (List.mem_reverse.not.mpr unbroken) []
    have hend : min target (before ++ (seen.reverse ++ [])).length =
        before.length + seen.reverse.length := by
      simp only [List.append_nil, List.length_append, List.length_reverse]
      omega
    rw [hend, locate, Nat.add_sub_cancel]
    simpa using hline
  | cons c rest ih =>
    rw [locate]
    split
    · next hreached =>
      have hline := encloses_append breaks (List.mem_reverse.not.mpr unbroken) (c :: rest)
      have hhere : min target (before ++ (seen.reverse ++ c :: rest)).length =
          before.length + seen.reverse.length := by
        simp only [List.length_append, List.length_reverse, List.length_cons]
        omega
      rw [hhere, Nat.add_sub_cancel]
      exact hline
    · next hne =>
      have hahead : before.length + seen.length + 1 ≤ target := by omega
      split
      · next hc =>
        subst hc
        have hlast : (before ++ seen.reverse ++ ['\n']).getLast? = some '\n' := by simp
        have hcount : (before ++ seen.reverse ++ ['\n']).count '\n' = before.count '\n' + 1 := by
          simp [List.count_append, List.count_eq_zero.mpr unbroken]
        have hlater := ih (before ++ seen.reverse ++ ['\n']) [] (Or.inr hlast) List.not_mem_nil
          (by simpa [Nat.add_assoc] using hahead)
        rw [hcount] at hlater
        simpa [Nat.add_assoc] using hlater
      · next hc =>
        have hunbroken : '\n' ∉ c :: seen := by
          rw [List.mem_cons, not_or]
          exact ⟨fun h => hc h.symm, unbroken⟩
        have hlater := ih before (c :: seen) breaks hunbroken
          (by simpa [Nat.add_assoc] using hahead)
        simpa [Nat.add_assoc] using hlater

end Line

theorem SourceFile.encloses_lineOf (file : SourceFile) {s : Span} (h : 0 ≤ s.start) :
    (file.lineOf s).Encloses file.contents (min s.start.toNat file.length) := by
  obtain ⟨target, htarget⟩ := Int.eq_ofNat_of_zero_le h
  rw [lineOf, htarget, Int.toNat_natCast]
  exact Line.encloses_locate [] [] file.contents (Or.inl rfl) List.not_mem_nil (Nat.zero_le _)

namespace CommandLine

/-- A complaint points to a place on its line or behind it, at one character at
least, and at no more than its span has unless that is none. -/
structure Placed (e : SyntaxError) : Prop where
  offset : 0 ≤ complaintOffset e
  visible : 1 ≤ complaintLength e
  bounded : complaintLength e ≤ max 1 e.span.length

theorem placed_of_start_nonneg {e : SyntaxError} (h : 0 ≤ e.span.start) : Placed e := by
  refine ⟨?_, le_max_left _ _, max_le_max_left 1 (min_le_right _ _)⟩
  have hstart : e.line.start ≤ min e.span.start.toNat e.file.length :=
    (e.file.encloses_lineOf h).start_le
  rw [complaintOffset]
  omega

end CommandLine

namespace Grammar

variable {file : SourceFile} {i : Nat} {cs : List Char} {ts : List (Token Lexeme)}
  {L : Language Symbol} {α : Type} {input : Input}

theorem Cut.start_nonneg (h : Cut i cs ts) : ∀ t ∈ ts, 0 ≤ t.span.start := by
  induction h with
  | stop i => exact List.forall_mem_singleton.mpr (Int.natCast_nonneg i)
  | @next i n c rest kind ts first more ih =>
    exact List.forall_mem_cons.mpr ⟨Int.natCast_nonneg i, ih⟩

/-- What a reader complains about is one of the tokens that it was given. -/
theorem start_nonneg_of_complete {x : Except SyntaxError (Reading α)} {c : Complaint}
    {e : SyntaxError} (hx : Answers file L input x) (hinput : ∀ t ∈ input, 0 ≤ t.span.start)
    (h : x >>= complete file c = .error e) : 0 ≤ e.span.start := by
  rcases bind_eq_error_iff.mp h with rfl | ⟨r, rfl, hr⟩
  · obtain ⟨front, t, rest, rfl, -, hspan, -⟩ := hx
    rw [hspan]
    exact hinput t (List.mem_append_right _ (List.mem_cons_self ..))
  · obtain ⟨front, rfl, -, -⟩ := hx
    rw [complete] at hr
    split at hr
    · cases hr
    · cases hr
      change 0 ≤ (lookahead file r.rest).span.start
      cases hrest : r.rest with
      | nil => exact Int.natCast_nonneg _
      | cons t rest =>
        rw [hrest] at hinput
        exact hinput t (List.mem_append_right _ (List.mem_cons_self ..))

theorem start_nonneg_of_tokens {e : SyntaxError} (h : tokens file = .error e) :
    0 ≤ e.span.start := by
  rw [tokens] at h
  split at h
  · cases h
  · cases h
    exact Int.natCast_nonneg _

/-- A text is complained about at a character or at one of its tokens. -/
theorem start_nonneg_of_reader {read : Input → Except SyntaxError (Reading α)} {c : Complaint}
    {e : SyntaxError} (hread : ∀ input, Ended file input → Answers file L input (read input))
    (h : (do let input ← tokens file; let r ← read input; complete file c r) = .error e) :
    0 ≤ e.span.start := by
  rcases bind_eq_error_iff.mp h with htokens | ⟨input, htokens, hr⟩
  · exact start_nonneg_of_tokens htokens
  · obtain ⟨ts, hcut, rfl⟩ := tokens_eq_ok_iff.mp htokens
    obtain ⟨front, hfront, hproper⟩ := hcut.ended List.drop_zero (Nat.zero_le _)
    refine start_nonneg_of_complete (hread _ ⟨front, _, hfront, hproper⟩) ?_ hr
    exact fun t ht => hcut.start_nonneg t (List.mem_of_mem_filter ht)

theorem start_nonneg_of_term {e : SyntaxError} (h : term file = .error e) : 0 ≤ e.span.start :=
  start_nonneg_of_reader (fun _ hinput => answers_readTerm hinput (Nat.le_refl _)) h

theorem start_nonneg_of_outlinedFormula {e : SyntaxError} (h : outlinedFormula file = .error e) :
    0 ≤ e.span.start :=
  start_nonneg_of_reader (fun _ hinput => answers_readFormula hinput (Nat.le_refl _)) h

/-- A span of a formula that was read begins in the text, and so does the text. -/
theorem start_nonneg_of_outline {f : Formula} {o : Outline} (h : outlinedFormula file = .ok (f, o))
    (p : Position) (message : String) :
    0 ≤ ((o.sourceMap file).syntaxError p message).span.start := by
  rw [SourceMap.syntaxError, Outline.find?_sourceMap]
  cases hs : o.at? p with
  | none => exact Int.natCast_nonneg 0
  | some s =>
    rw [← List.append_nil p] at hs
    obtain ⟨g, part, hfits, hsame⟩ := (fits_of_outlinedFormula h).exists_part hs
    rw [hsame, Outline.at?_nil, Option.some.injEq] at hs
    subst hs
    exact hfits.covers_span.start_nonneg

end Grammar

namespace CommandLine

open Grammar

/-- The line on which a span begins is the one that encloses the position where
it begins, or the end of the text if that comes first. So whatever cannot be read
as a formula or as a term, and whatever is malformed in a formula that was read,
the complaint about it points to a place that is not before its line, at one
character at least, and at no more than its span has unless that is none. -/
theorem complaints_placed (file : SourceFile) (text : String) :
    (∀ s : Span, 0 ≤ s.start →
      (file.lineOf s).Encloses file.contents (min s.start.toNat file.length)) ∧
    (∀ e, Formula.read file = .error e → Placed e.located) ∧
    (∀ f o, outlinedFormula file = .ok (f, o) →
      ∀ m, Placed (ParseError.malformed m (o.sourceMap file)).located) ∧
    ∀ e, Term.parse text = .error e → Placed e := by
  have hmalformed : ∀ f o, outlinedFormula file = .ok (f, o) →
      ∀ m, Placed (ParseError.malformed m (o.sourceMap file)).located :=
    fun f o h m => placed_of_start_nonneg (start_nonneg_of_outline h m.position m.reason)
  refine ⟨fun s h => file.encloses_lineOf h, fun e he => ?_, hmalformed,
    fun e he => placed_of_start_nonneg (start_nonneg_of_term he)⟩
  rw [Formula.read] at he
  split at he
  · next e' hread =>
    cases he
    exact placed_of_start_nonneg (start_nonneg_of_outlinedFormula hread)
  · next f o hread =>
    split at he
    · cases he
      exact hmalformed f o hread _
    · cases he

/-- A text that breaks off at a line break, which is complained about at the end of
its first line; and a term that breaks off at its end. -/
theorem complaints_placed_line_break :
    let file := SourceFile.ofString "<input>" "~0=\n0"
    let e : SyntaxError := ⟨file, .ofStart 3 1, "unknown text encountered"⟩
    let e' : SyntaxError := ⟨.ofString "term" "(0+", .ofStart 3 0, "unexpected end of input"⟩
    0 ≤ e.span.start ∧
      (file.lineOf e.span).Encloses file.contents (min e.span.start.toNat file.length) ∧
      file.lineOf e.span = ⟨['~', '0', '='], 1, 0⟩ ∧
      Formula.read file = .error (.unreadable e) ∧ Placed e ∧
      complaintOffset e = 3 ∧ complaintLength e = 1 ∧
      Term.parse "(0+" = .error e' ∧ Placed e' ∧ complaintOffset e' = 3 ∧ complaintLength e' = 1 := by
  intro file e e'
  obtain ⟨hlines, hread, -, hterm⟩ := complaints_placed file "(0+"
  have hstart : 0 ≤ e.span.start := by decide
  have hunreadable : Formula.read file = .error (.unreadable e) := by
    have houtline : outlinedFormula file = .error e := by decide
    rw [Formula.read, houtline]
  have hends : Term.parse "(0+" = .error e' := by decide
  exact ⟨hstart, hlines e.span hstart, by decide, hunreadable, hread _ hunreadable, by decide,
    by decide, hends, hterm e' hends, by decide, by decide⟩

end CommandLine

end Typographical
