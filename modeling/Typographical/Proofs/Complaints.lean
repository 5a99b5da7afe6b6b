import Typographical.Proofs.Pointer

/-!
# Where a text is complained about

A text that is no well-quantified formula fails in one of three ways. At some
position no lexical rule matches; then the complaint is about the one character
there. Or the tokens of the text are not those of a formula; then it is about the
first token that no formula beginning with the tokens before goes on with. Or the
formula is not well quantified; then the error is that of the formula.
-/

namespace Typographical

universe u v

theorem LexRule.firstMatch_eq_none_iff {α : Type u} {κ : Type v} {rules : List (LexRule α κ)}
    {input : List α} :
    firstMatch rules input = some none ↔ ∀ r ∈ rules, r.scanner input = some 0 := by
  induction rules with
  | nil => simp [firstMatch]
  | cons r rules ih =>
    rw [firstMatch, List.forall_mem_cons, ← ih]
    split
    · next h => simp [h]
    · next h => simp [h]
    · next n hn h =>
      have hne : n ≠ 0 := hn
      simp [h, hne]

namespace Grammar

/-- Cutting the text that begins at a position, no rule matches at the last
position given. -/
inductive Stuck : Nat → List Char → Nat → Prop
  | here {i : Nat} {c : Char} {rest : List Char}
      (unmatched : ∀ r ∈ rules, r.scanner (c :: rest) = some 0) : Stuck i (c :: rest) i
  | later {i k n : Nat} {c : Char} {rest : List Char} {kind : Lexeme}
      (first : LexRule.firstMatch rules (c :: rest) = some (some (kind, n)))
      (more : Stuck (i + n) ((c :: rest).drop n) k) : Stuck i (c :: rest) k

variable {file : SourceFile} {cs rest : List Char} {i k : Nat} {ts : List (Token Lexeme)}

theorem unmatched_iff {c : Char} :
    (∀ r ∈ rules, r.scanner (c :: rest) = some 0) ↔ piece c rest = none := by
  rw [← LexRule.firstMatch_eq_none_iff, firstMatch_cons, Option.some.injEq]

/-- A text can be cut into pieces, or there is a position at which this ends. -/
theorem cut_or_stuck (i : Nat) (cs : List Char) :
    (∃ ts, Cut i cs ts) ∨ ∃ k, Stuck i cs k := by
  induction hlength : cs.length using Nat.strongRecOn generalizing i cs with
  | ind size ih =>
    cases cs with
    | nil => exact Or.inl ⟨_, .stop i⟩
    | cons c rest =>
      cases hp : piece c rest with
      | none => exact Or.inr ⟨i, .here (unmatched_iff.mpr hp)⟩
      | some found =>
        obtain ⟨kind, n⟩ := found
        have hshort : ((c :: rest).drop n).length < size := by
          have := (piece_bounds hp).1
          simp only [List.length_drop, List.length_cons] at hlength ⊢
          omega
        rcases ih _ hshort (i + n) _ rfl with ⟨ts, hts⟩ | ⟨k, hk⟩
        · exact Or.inl ⟨_, .next hp hts⟩
        · have hfirst : LexRule.firstMatch rules (c :: rest) = some (some (kind, n)) := by
            rw [firstMatch_cons, hp]
          exact Or.inr ⟨k, .later hfirst hk⟩

/-- Where no rule matches, collecting stops, and something is left. -/
theorem collectFrom_of_stuck {rounds : Nat} (h : Stuck i rest k) (hrest : cs.drop i = rest)
    (enough : rest.length < rounds) :
    k < cs.length ∧ ∃ ts, Lexer.collectFrom rounds (lexerAt cs i) = ⟨some ts, lexerAt cs k⟩ := by
  induction h generalizing rounds with
  | @here i c rest unmatched =>
    obtain ⟨rounds, rfl⟩ : ∃ r, rounds = r + 1 := ⟨rounds - 1, by omega⟩
    have hlength := congrArg List.length hrest
    rw [List.length_drop, List.length_cons] at hlength
    refine ⟨by omega, [], ?_⟩
    rw [collectFrom_cons rounds hrest, unmatched_iff.mp unmatched]
  | @later i k n c rest kind first more ih =>
    obtain ⟨rounds, rfl⟩ : ∃ r, rounds = r + 1 := ⟨rounds - 1, by omega⟩
    have hpiece : piece c rest = some (kind, n) := by
      rw [firstMatch_cons] at first
      exact Option.some.inj first
    have hdrop : cs.drop (i + n) = (c :: rest).drop n := by
      rw [← List.drop_drop, hrest]
    have hrounds : ((c :: rest).drop n).length < rounds := by
      have := (piece_bounds hpiece).1
      simp only [List.length_drop, List.length_cons] at enough ⊢
      omega
    obtain ⟨hk, ts, hts⟩ := ih hdrop hrounds
    refine ⟨hk, ⟨kind, .ofStart i n⟩ :: ts, ?_⟩
    rw [collectFrom_cons rounds hrest, hpiece]
    simp only [hts, Option.map_some]

theorem collect_of_stuck (h : Stuck 0 cs k) :
    k < cs.length ∧ ∃ ts, Lexer.collect (lexerAt cs 0) = ⟨some ts, lexerAt cs k⟩ :=
  collectFrom_of_stuck h List.drop_zero (Nat.lt_add_of_pos_right (by decide))

theorem tokens_of_stuck (h : Stuck 0 file.contents k) :
    tokens file = .error ⟨file, .ofStart k 1, "unknown text encountered"⟩ := by
  obtain ⟨hk, ts, hcollect⟩ := collect_of_stuck h
  obtain ⟨left, hleft⟩ : ∃ left, file.contents.length - k = left + 1 :=
    ⟨file.contents.length - k - 1, by omega⟩
  rw [tokens]
  simp only [hcollect, Lexer.remaining, hleft]

/-- No scanner overruns. -/
theorem collect_isSome (cs : List Char) : (Lexer.collect (lexerAt cs 0)).tokens.isSome := by
  rcases cut_or_stuck 0 cs with ⟨ts, hts⟩ | ⟨k, hk⟩
  · rw [Lexer.collect, collectFrom_of_cut hts rfl (Nat.zero_le _) (Nat.le_refl _)]
    rfl
  · obtain ⟨-, ts, hts⟩ := collect_of_stuck hk
    rw [hts]
    rfl

/-- The tokens of a text spell symbols up to the end of input, which comes behind
the last character. -/
theorem Cut.ended (h : Cut i cs ts) (hcs : file.contents.drop i = cs)
    (inside : i ≤ file.length) :
    ∃ front, visible ts = front ++ [⟨.endOfInput, .ofStart file.length 0⟩] ∧
      ∀ t ∈ front, (spell file t).Proper := by
  induction h with
  | stop i =>
    have hi : i = file.length := Nat.le_antisymm inside (List.drop_eq_nil_iff.mp hcs)
    exact ⟨[], by rw [hi]; rfl, List.forall_mem_nil _⟩
  | @next i n c rest kind ts first more ih =>
    have hlength := congrArg List.length hcs
    rw [List.length_drop, List.length_cons] at hlength
    have hdrop : file.contents.drop (i + n) = (c :: rest).drop n := by
      rw [← List.drop_drop, hcs]
    have hinside : i + n ≤ file.length := by
      have hn := (piece_bounds first).2
      have hi : file.contents.length = file.length := rfl
      omega
    obtain ⟨front, hvisible, hproper⟩ := ih hdrop hinside
    rcases piece_cases first with ⟨hmark, rfl⟩ | ⟨-, rfl, -⟩ | ⟨hlower, rfl, rfl⟩
    · obtain ⟨-, -, -, -, hname, hblank, -⟩ := marks_spec hmark
      refine ⟨⟨kind, .ofStart i 1⟩ :: front, ?_, List.forall_mem_cons.mpr ⟨?_, hproper⟩⟩
      · rw [visible_cons_of_ne hblank, hvisible, List.cons_append]
      · rw [spell_eq_mark_iff.mpr ⟨rfl, hname⟩]
        exact proper_mark hmark
    · exact ⟨front, by rw [visible_cons_of_blank rfl, hvisible], hproper⟩
    · refine ⟨⟨.name, .ofStart i (1 + (rest.takeWhile isPrime).length)⟩ :: front, ?_,
        List.forall_mem_cons.mpr ⟨?_, hproper⟩⟩
      · rw [visible_cons_of_ne (by simp), hvisible, List.cons_append]
      · have hslice : file.slice (.ofStart i (1 + (rest.takeWhile isPrime).length)) =
            (⟨c, (rest.takeWhile isPrime).length, hlower⟩ : Variable).chars := by
          rw [slice_ofStart, hcs, take_run]
          exact congrArg (c :: ·) (takeWhile_isPrime rest)
        rw [spell_eq_name_iff.mpr ⟨rfl, hslice⟩]
        exact proper_name _

/-- The end of input is the last token. -/
theorem eq_last_of_end {all front rest : Input} {e t : Token Lexeme}
    (hproper : ∀ t ∈ all, (spell file t).Proper) (h : all ++ [e] = front ++ t :: rest)
    (hend : t.kind = .endOfInput) : front = all ∧ t = e := by
  rcases List.eq_nil_or_concat rest with rfl | ⟨between, last, rfl⟩
  · obtain ⟨hfront, ht⟩ := List.append_inj' h rfl
    exact ⟨hfront.symm, (List.cons.inj ht).1.symm⟩
  · rw [List.concat_eq_append, ← List.cons_append, ← List.append_assoc] at h
    obtain ⟨rfl, -⟩ := List.append_inj' h rfl
    have ht := hproper t (List.mem_append_right _ (List.mem_cons_self ..))
    rw [spell_eq_mark_iff.mpr ⟨hend, by decide⟩] at ht
    exact absurd ht not_proper_endOfInput

/-- Symbols that a formula begins with. -/
def Viable (symbols : List Symbol) : Prop := ∃ f : Formula, symbols <+: formulaSymbols f

def Spells (file : SourceFile) (input : Input) (f : Formula) : Prop :=
  input.map (spell file) = formulaSymbols f ++ [.mark .endOfInput]

theorem outlinedFormula_of_cut (h : Cut 0 file.contents ts) :
    outlinedFormula file = (do
      let f ← readFormula file (visible ts).length (visible ts)
      complete file .textAfterFormula f) := by
  rw [outlinedFormula, tokens_eq_ok_iff.mpr ⟨ts, h, rfl⟩]
  rfl

theorem outlinedFormula_of_spells {f : Formula} (h : Cut 0 file.contents ts)
    (hf : Spells file (visible ts) f) : ∃ outline, outlinedFormula file = .ok (f, outline) := by
  have hlength := congrArg List.length hf
  rw [List.length_map, List.length_append] at hlength
  have enough : (formulaSymbols f).length ≤ (visible ts).length := by omega
  obtain ⟨r, hr, hvalue, hrest⟩ := readFormula_of_map hf enough
  obtain ⟨span, rest, hend, -⟩ := exists_mark hrest
  refine ⟨r.value.2, ?_⟩
  rw [outlinedFormula_of_cut h, bind_eq_ok_iff]
  refine ⟨r, hr, complete_eq_ok_iff.mpr ⟨?_, ?_⟩⟩
  · rw [hend]
    rfl
  · rw [← hvalue]

/-- If the tokens are not those of a formula, the complaint is about the first one
with which they cease to begin a formula. -/
theorem complaint_of_not_spells (h : Cut 0 file.contents ts)
    (hnone : ∀ f, ¬ Spells file (visible ts) f) :
    ∃ front t rest message, visible ts = front ++ t :: rest ∧
      outlinedFormula file = .error ⟨file, t.span, message⟩ ∧
      Viable (front.map (spell file)) ∧ ¬ Viable ((front ++ [t]).map (spell file)) := by
  obtain ⟨all, hall, hproper⟩ := h.ended List.drop_zero (Nat.zero_le _)
  have hanswer := answers_readFormula ⟨all, _, hall, hproper⟩ (Nat.le_refl (visible ts).length)
  rw [outlinedFormula_of_cut h]
  cases hread : readFormula file (visible ts).length (visible ts) with
  | error e =>
    rw [hread] at hanswer
    obtain ⟨front, t, rest, hinput, hfile, hspan, ⟨more, -, f, hf⟩, hbroken⟩ := hanswer
    refine ⟨front, t, rest, e.message, hinput, ?_, ⟨f, more, hf.symm⟩, ?_⟩
    · rw [← hspan, ← hfile]
      rfl
    · rintro ⟨g, hg⟩
      refine hbroken _ ⟨g, rfl⟩ [] ?_
      rwa [List.append_nil]
  | ok r =>
    rw [hread] at hanswer
    obtain ⟨front, hinput, ⟨f, hf⟩, hended⟩ := hanswer
    cases hrest : r.rest with
    | nil => exact absurd hrest hended.ne_nil
    | cons t rest =>
      rw [hrest] at hinput hended
      have hkind : t.kind ≠ .endOfInput := by
        intro hend
        refine hnone f ?_
        have hlast := hended.eq_nil_of_end hend
        subst hlast
        rw [Spells, hinput, List.map_append, hf, List.map_singleton,
          spell_eq_mark_iff.mpr ⟨hend, by decide⟩]
      refine ⟨front, t, rest, Complaint.textAfterFormula.message, hinput, ?_,
        ⟨f, by rw [hf]⟩, ?_⟩
      · change complete file .textAfterFormula r = _
        rw [complete, hrest]
        exact if_neg hkind
      · rintro ⟨g, tail, htail⟩
        rw [List.map_append, ← hf, List.append_assoc, ← List.append_nil (formulaSymbols g)] at htail
        cases (formulaSymbols_append_inj htail).2

end Grammar

open Grammar

/-- Reading a formula, no scanner overruns and no pointer strays, and a text is
either cut into tokens or there is a first position at which no rule matches. In
the latter case the complaint is about the character at this position. If the
tokens spell a formula, it is read, or the error is that of its quantifiers.
Otherwise the complaint is about the first token with which the tokens cease to
begin a formula; if this is the end of input, the tokens before begin a formula
but are not one. -/
theorem Formula.read_complaints (file : SourceFile) :
    (Lexer.collect (lexerAt file.contents 0)).tokens.isSome ∧
    ((∃ i, Stuck 0 file.contents i) ∨ ∃ ts, Cut 0 file.contents ts) ∧
    (∀ i, Stuck 0 file.contents i → Formula.read file =
      .error (.unreadable ⟨file, .ofStart i 1, "unknown text encountered"⟩)) ∧
    ∀ ts, Cut 0 file.contents ts →
      (Pointed.outlinedFormula file (visible ts) 0).map (·.map Prod.fst) =
        some (outlinedFormula file) ∧
      (∀ f, Spells file (visible ts) f → ∃ outline, Formula.read file =
        match f.checkWellFormed with
        | .ok () => .ok (f, outline)
        | .error m => .error (.malformed m (outline.sourceMap file))) ∧
      ((∀ f, ¬ Spells file (visible ts) f) → ∃ front t rest message,
        visible ts = front ++ t :: rest ∧
        Formula.read file = .error (.unreadable ⟨file, t.span, message⟩) ∧
        Viable (front.map (spell file)) ∧ ¬ Viable ((front ++ [t]).map (spell file)) ∧
        (t.kind = .endOfInput → t.span = .ofStart file.length 0 ∧
          ∀ f, front.map (spell file) ≠ formulaSymbols f)) := by
  refine ⟨collect_isSome _, (cut_or_stuck 0 file.contents).symm, fun i hi => ?_, fun ts hts => ?_⟩
  · rw [Formula.read, outlinedFormula, tokens_of_stuck hi]
    rfl
  · obtain ⟨all, hall, hproper⟩ := hts.ended List.drop_zero (Nat.zero_le _)
    refine ⟨?_, fun f hf => ?_, fun hnone => ?_⟩
    · rw [outlinedFormula_of_cut hts]
      exact Pointed.outlinedFormula_eq ⟨all, _, hall, hproper⟩
    · obtain ⟨outline, houtline⟩ := outlinedFormula_of_spells hts hf
      refine ⟨outline, ?_⟩
      rw [Formula.read, houtline]
      dsimp only
      cases f.checkWellFormed <;> rfl
    · obtain ⟨front, t, rest, message, hinput, hread, hviable, hbroken⟩ :=
        complaint_of_not_spells hts hnone
      refine ⟨front, t, rest, message, hinput, ?_, hviable, hbroken, fun hend => ?_⟩
      · rw [Formula.read, hread]
      · obtain ⟨hfront, ht⟩ := eq_last_of_end hproper (hall.symm.trans hinput) hend
        refine ⟨by rw [ht], fun f hf => hnone f ?_⟩
        rw [Spells, hall, List.map_append, ← hfront, hf]
        rfl

end Typographical
