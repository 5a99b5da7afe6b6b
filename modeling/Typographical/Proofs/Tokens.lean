import Typographical.Proofs.Reading
import Typographical.Proofs.Scanning

/-!
# The tokens of a text

The lexical rules keep to the characters that there are, so that collecting the
tokens of a text comes to an end. If nothing remains then the text was cut into
pieces, and no character is lost: the texts of the tokens, blanks included, make
up the text. The end of input comes last and nowhere else. Blanks and names reach
as far as they can, so that no blank comes behind another one, and no prime behind
a name.

A name is checked once by its characters and once by the lexer, and both accept
the same names.
-/

namespace Typographical

universe u v

namespace Grammar

variable {file : SourceFile} {i : Nat} {cs : List Char} {ts : List (Token Lexeme)}

theorem modest_rules : ∀ r ∈ rules, r.scanner.Modest := by
  have hblanks : blanks.Inside := by
    refine (Scanner.inside_firstOf ?_).many
    exact List.forall_mem_cons.mpr
      ⟨Scanner.inside_unit _, List.forall_mem_singleton.mpr (Scanner.inside_unit _)⟩
  have hname : variableName.Inside := (Scanner.inside_within _ _).andThen (Scanner.inside_unit _).many
  rw [rules_eq, List.forall_mem_append]
  constructor
  · intro r hr
    obtain ⟨m, -, rfl⟩ := List.mem_map.mp hr
    exact (Scanner.inside_unit [m.1]).modest
  · intro r hr
    simp only [List.mem_cons, List.not_mem_nil, or_false] at hr
    rcases hr with rfl | rfl | rfl
    · exact hblanks.modest
    · exact hname.modest
    · exact Scanner.modest_endOfInput

theorem kind_ne_end_of_piece {c : Char} {rest : List Char} {kind : Lexeme} {n : Nat}
    (h : piece c rest = some (kind, n)) : kind ≠ .endOfInput := by
  rcases piece_cases h with ⟨hmark, -⟩ | ⟨-, rfl, -⟩ | ⟨-, rfl, -⟩
  · exact (marks_spec hmark).2.2.2.2.2.2
  · simp
  · simp

/-- The pieces make up the text. -/
theorem Cut.flatMap_slice (h : Cut i cs ts) (hcs : file.contents.drop i = cs) :
    ts.flatMap (fun t => file.slice t.span) = cs := by
  induction h with
  | stop i =>
    rw [List.flatMap_singleton, slice_ofStart, List.take_zero]
  | @next i n c rest kind ts first more ih =>
    have hdrop : file.contents.drop (i + n) = (c :: rest).drop n := by
      rw [← List.drop_drop, hcs]
    rw [List.flatMap_cons, ih hdrop, slice_ofStart, hcs, List.take_append_drop]

/-- The end of input is found once, behind the last character. -/
theorem Cut.end_last (h : Cut i cs ts) (hcs : file.contents.drop i = cs)
    (inside : i ≤ file.length) :
    ∃ front, ts = front ++ [⟨.endOfInput, .ofStart file.length 0⟩] ∧
      ∀ t ∈ front, t.kind ≠ .endOfInput := by
  induction h with
  | stop i =>
    have hi : i = file.length := Nat.le_antisymm inside (List.drop_eq_nil_iff.mp hcs)
    exact ⟨[], by rw [hi]; rfl, List.forall_mem_nil _⟩
  | @next i n c rest kind ts first more ih =>
    have hdrop : file.contents.drop (i + n) = (c :: rest).drop n := by
      rw [← List.drop_drop, hcs]
    have hinside : i + n ≤ file.length := by
      have hn := (piece_bounds first).2
      have hlength := congrArg List.length hcs
      have hi : file.contents.length = file.length := rfl
      rw [List.length_drop, List.length_cons] at hlength
      omega
    obtain ⟨front, hfront, hkinds⟩ := ih hdrop hinside
    exact ⟨_ :: front, by rw [hfront, List.cons_append],
      List.forall_mem_cons.mpr ⟨kind_ne_end_of_piece first, hkinds⟩⟩

theorem Cut.head_blank {t : Token Lexeme} (h : Cut i cs (t :: ts)) (ht : t.kind = .blank) :
    ∃ c ∈ cs.head?, isBlank c = true := by
  cases h with
  | stop i => cases ht
  | @next _ n c rest kind _ first more =>
    rcases piece_cases first with ⟨hmark, -⟩ | ⟨hblank, -, -⟩ | ⟨-, rfl, -⟩
    · exact absurd ht (marks_spec hmark).2.2.2.2.2.1
    · exact ⟨c, rfl, hblank⟩
    · cases ht

/-- A blank piece takes all blanks, so none begins behind it. -/
theorem Cut.blanks_apart (h : Cut i cs ts) :
    ts.IsChain (fun t u => ¬ (t.kind = .blank ∧ u.kind = .blank)) := by
  induction h with
  | stop i => exact .singleton _
  | @next i n c rest kind ts first more ih =>
    refine List.IsChain.cons ih ?_
    rintro u hu ⟨rfl, hublank⟩
    cases ts with
    | nil => cases hu
    | cons t ts =>
      cases hu
      obtain ⟨d, hd, hblank⟩ := more.head_blank hublank
      rcases piece_cases first with ⟨hmark, -⟩ | ⟨-, -, rfl⟩ | ⟨-, hkind, -⟩
      · exact absurd rfl (marks_spec hmark).2.2.2.2.2.1
      · have hnot := List.head?_dropWhile_not isBlank rest
        rw [drop_run, Option.mem_def] at hd
        rw [hd] at hnot
        exact Bool.noConfusion (hblank.symm.trans hnot)
      · cases hkind

/-- No piece begins with a prime, so none comes before one. -/
theorem Cut.not_before_prime (h : Cut i cs ts) (hcs : file.contents.drop i = cs) :
    ∀ t ∈ ts, file.contents[t.span.stop.toNat]? ≠ some '\'' := by
  induction h with
  | stop i =>
    rw [List.forall_mem_singleton]
    have hend : file.contents[i]? = none :=
      List.getElem?_eq_none (List.drop_eq_nil_iff.mp hcs)
    have hstop : (Span.ofStart i 0).stop.toNat = i := by
      simp [Span.ofStart]
    rw [hstop, hend]
    simp
  | @next i n c rest kind ts first more ih =>
    have hdrop : file.contents.drop (i + n) = (c :: rest).drop n := by
      rw [← List.drop_drop, hcs]
    refine List.forall_mem_cons.mpr ⟨?_, ih hdrop⟩
    have hstop : (Span.ofStart i n).stop.toNat = i + n := by
      simp only [Span.ofStart]
      omega
    rw [hstop, ← List.head?_drop, hdrop]
    exact more.head_ne_prime

/-- The name of a variable is one piece. -/
theorem cut_name (v : Variable) :
    Cut 0 v.chars [⟨.name, .ofStart 0 (1 + v.primes)⟩, ⟨.endOfInput, .ofStart (1 + v.primes) 0⟩] := by
  have hrun : (List.replicate v.primes '\'').takeWhile isPrime = List.replicate v.primes '\'' :=
    (List.takeWhile_replicate ..).trans (if_pos rfl)
  have hpiece : piece v.letter (List.replicate v.primes '\'') = some (.name, 1 + v.primes) := by
    rw [piece_of_isLower v.lowercase, hrun, List.length_replicate]
  have hdrop : (v.letter :: List.replicate v.primes '\'').drop (1 + v.primes) = [] := by
    rw [List.drop_eq_nil_iff, List.length_cons, List.length_replicate, Nat.add_comm]
  refine .next hpiece ?_
  rw [hdrop, Nat.zero_add]
  exact .stop _

/-- A text of which one name and nothing else is found is a name. -/
theorem exists_variable_of_row {s e : Span} {j : Nat} (hi : i = 0)
    (h : Lexer.Row rules cs i [⟨.name, s⟩, ⟨.endOfInput, e⟩] j) : ∃ v : Variable, cs = v.chars := by
  obtain _ | _ | @⟨_, _, n, _, _, first, long, inside, later⟩ := h
  subst hi
  cases cs with
  | nil => cases first
  | cons c rest =>
    rw [List.drop_zero, firstMatch_cons, Option.some.injEq] at first
    have hrest : (c :: rest).drop n = [] := by
      generalize hn : 0 + n = k at later
      rw [Nat.zero_add] at hn
      subst hn
      obtain _ | hlast | @⟨_, _, m, _, _, first', -, -, -⟩ := later
      · exact List.drop_length
      · cases hd : (c :: rest).drop n with
        | nil => rfl
        | cons d more =>
          rw [hd, firstMatch_cons, Option.some.injEq] at first'
          exact absurd rfl (kind_ne_end_of_piece first')
    rcases piece_cases first with ⟨hmark, -⟩ | ⟨-, hkind, -⟩ | ⟨hlower, -, rfl⟩
    · exact absurd rfl (marks_spec hmark).2.2.2.2.1
    · cases hkind
    · rw [drop_run, List.dropWhile_eq_nil_iff] at hrest
      have hall : rest.takeWhile isPrime = rest := List.takeWhile_eq_self_iff.mpr hrest
      refine ⟨⟨c, rest.length, hlower⟩, congrArg (c :: ·) ?_⟩
      have hprimes := takeWhile_isPrime rest
      rwa [hall] at hprimes

theorem parse_isOk_iff {name : String} :
    (∃ v, Variable.parse name = .ok v) ↔ ∃ v : Variable, name.toList = v.chars := by
  simp only [← Variable.ofChars?_eq_some_iff, Variable.parse]
  cases Variable.ofChars? name.toList with
  | none => simp
  | some v => simp

theorem exists_parse_iff {name : String} :
    (∃ v, Variable.parse name = .ok v) ↔ ∃ s e final,
      Lexer.collect (lexerAt name.toList 0) = ⟨some [⟨.name, s⟩, ⟨.endOfInput, e⟩], final⟩ := by
  rw [parse_isOk_iff]
  constructor
  · rintro ⟨v, hv⟩
    rw [hv]
    exact ⟨_, _, _, collectFrom_of_cut (cut_name v) rfl (Nat.zero_le _) (Nat.le_refl _)⟩
  · rintro ⟨s, e, final, hcollect⟩
    obtain ⟨ts, final', hcollect', -, hrow, -⟩ := Lexer.exists_collect modest_rules name.toList
    rw [hcollect] at hcollect'
    cases hcollect'
    exact exists_variable_of_row rfl hrow

end Grammar

open Grammar

/-- Collecting tokens comes to an end and loses nothing. For any rules whose
scanners report no more items than there are, or one at the end of input, taking
tokens for as long as there is a next one is what collecting does. The tokens are
in a row from the start on, each of the first rule that matches, and either nothing
remains or no rule matches where this ends.

The lexical rules of formulas are such rules. If nothing of a text remains then
the texts of its tokens make up the text, the end of input comes last and only
there, no two blanks are next to one another, and no token comes before a prime. A
text is the name of a variable exactly if its tokens are one name and the end of
input. -/
theorem Lexer.collecting_loses_nothing {α : Type u} {κ : Type v} (rs : List (LexRule α κ))
    (modest : ∀ r ∈ rs, r.scanner.Modest) (items : List α) (file : SourceFile) (name : String) :
    (∃ ts final, collect ⟨items, rs, 0, none⟩ = ⟨some ts, final⟩ ∧
      Drains ⟨items, rs, 0, none⟩ ts final ∧ Row rs items 0 ts final.index ∧
      (final.remaining = 0 ∨ ∀ r ∈ rs, r.scanner (items.drop final.index) = some 0)) ∧
    (∀ r ∈ Grammar.rules, r.scanner.Modest) ∧
    (∀ ts final, collect (lexerAt file.contents 0) = ⟨some ts, final⟩ → final.remaining = 0 →
      ts.flatMap (fun t => file.slice t.span) = file.contents ∧
      (∃ front, ts = front ++ [⟨.endOfInput, .ofStart file.length 0⟩] ∧
        ∀ t ∈ front, t.kind ≠ .endOfInput) ∧
      ts.IsChain (fun t u => ¬ (t.kind = .blank ∧ u.kind = .blank)) ∧
      ∀ t ∈ ts, file.contents[t.span.stop.toNat]? ≠ some '\'') ∧
    ((∃ v, Variable.parse name = .ok v) ↔ ∃ s e final,
      collect (lexerAt name.toList 0) = ⟨some [⟨.name, s⟩, ⟨.endOfInput, e⟩], final⟩) := by
  refine ⟨exists_collect modest items, modest_rules, fun ts final hcollect hdone => ?_,
    exists_parse_iff⟩
  have hdone' : (collect (lexerAt file.contents 0)).lexer.remaining = 0 := by
    rw [hcollect]
    exact hdone
  obtain ⟨ts', hcut⟩ := cut_of_collectFrom (Nat.zero_le _) (Nat.le_refl _) hdone'
  rw [List.drop_zero] at hcut
  have hcollect' := collectFrom_of_cut hcut List.drop_zero (Nat.zero_le _) (Nat.le_refl _)
  obtain rfl : ts = ts' := by
    have hsame := hcollect.symm.trans hcollect'
    cases hsame
    rfl
  exact ⟨hcut.flatMap_slice List.drop_zero, hcut.end_last List.drop_zero (Nat.zero_le _),
    hcut.blanks_apart, hcut.not_before_prime List.drop_zero⟩

/-- Rules of another kind that stop at a character they do not know; a term with
blanks; and a name. -/
theorem Lexer.collecting_loses_nothing_unknown :
    let rs : List (LexRule Char Nat) :=
      [⟨.unit ['a', 'b'], 1⟩, ⟨.many (.unit ['x']), 2⟩, ⟨.endOfInput, 3⟩]
    let items := ['a', 'b', 'x', 'x', '?']
    let file := SourceFile.ofString "term" "(b'' +\t 0)"
    (∀ r ∈ rs, r.scanner.Modest) ∧
      (∃ final, collect ⟨items, rs, 0, none⟩ =
          ⟨some [⟨1, .ofStart 0 2⟩, ⟨2, .ofStart 2 2⟩], final⟩ ∧
        final.index = 4 ∧ final.remaining = 1 ∧ ∀ r ∈ rs, r.scanner ['?'] = some 0) ∧
      (∃ ts final, collect (lexerAt file.contents 0) = ⟨some ts, final⟩ ∧ final.remaining = 0 ∧
        ts.map Token.kind = [.leftParenthesis, .name, .blank, .plus, .blank, .zero,
          .rightParenthesis, .endOfInput] ∧
        ts.flatMap (fun t => file.slice t.span) = file.contents) ∧
      ∃ s e final, collect (lexerAt ("b''" : String).toList 0) =
        ⟨some [⟨.name, s⟩, ⟨.endOfInput, e⟩], final⟩ := by
  intro rs items file
  have hmodest : ∀ r ∈ rs, r.scanner.Modest := by
    refine List.forall_mem_cons.mpr ⟨(Scanner.inside_unit _).modest, List.forall_mem_cons.mpr
      ⟨(Scanner.inside_unit _).many.modest, List.forall_mem_singleton.mpr ?_⟩⟩
    exact Scanner.modest_endOfInput
  obtain ⟨⟨ts, final, hcollect, -, -, hstop⟩, -, htext, hname⟩ :=
    Lexer.collecting_loses_nothing rs hmodest items file "b''"
  have hfound : (collect ⟨items, rs, 0, none⟩).tokens =
      some [⟨1, .ofStart 0 2⟩, ⟨2, .ofStart 2 2⟩] := by decide
  have hindex : (collect ⟨items, rs, 0, none⟩).lexer.index = 4 := by decide
  have hleft : (collect ⟨items, rs, 0, none⟩).lexer.remaining = 1 := by decide
  rw [hcollect] at hfound hindex hleft
  cases hfound
  have hparsed : Variable.parse "b''" = .ok ⟨'b', 2, rfl⟩ := by decide
  have hdone : (collect (lexerAt file.contents 0)).lexer.remaining = 0 := by decide
  have hkinds : (collect (lexerAt file.contents 0)).tokens.map (·.map Token.kind) =
      some [.leftParenthesis, .name, .blank, .plus, .blank, .zero, .rightParenthesis,
        .endOfInput] := by decide
  refine ⟨hmodest, ⟨final, hcollect, hindex, hleft, ?_⟩, ?_, hname.mp ⟨_, hparsed⟩⟩
  · rcases hstop with hnone | hstop
    · cases hleft.symm.trans hnone
    · rwa [hindex] at hstop
  · obtain ⟨ts, htokens, hkinds⟩ := Option.map_eq_some_iff.mp hkinds
    have hwhole : collect (lexerAt file.contents 0) =
        ⟨some ts, (collect (lexerAt file.contents 0)).lexer⟩ := by
      rw [← htokens]
    exact ⟨ts, _, hwhole, hdone, hkinds, (htext ts _ hwhole hdone).1⟩

end Typographical
