import Mathlib.Data.List.Chain
import Mathlib.Data.List.TakeWhile
import Typographical.Grammar.Parser
import Typographical.Proofs.Lexing

/-!
# What a text spells

The tokens of a text, blanks left out, are seen as symbols: marks, and names
with their characters. A text spells a list of symbols if it is their characters
with blanks in between. The only place where a blank would not go unnoticed is
in front of a prime, since a name ends there and nothing begins with a prime.
-/

namespace Typographical

namespace Grammar

inductive Symbol where
  | mark (kind : Lexeme)
  | name (chars : List Char)
  deriving DecidableEq

/-- The characters of a mark. The end of input has none, and blanks and names
have no fixed ones. -/
def Lexeme.chars : Lexeme → List Char
  | zero => ['0']
  | successor => ['S']
  | leftParenthesis => ['(']
  | rightParenthesis => [')']
  | leftBracket => ['[']
  | rightBracket => [']']
  | plus => ['+']
  | times => ['*']
  | equals => ['=']
  | and => ['&']
  | or => ['|']
  | implies => ['>']
  | tilde => ['~']
  | forAll => ['A']
  | thereIs => ['E']
  | colon => [':']
  | endOfInput | blank | name => []

namespace Symbol

def chars : Symbol → List Char
  | mark kind => kind.chars
  | name cs => cs

/-- Whether a text can spell a symbol: its kind is that of a mark, or its
characters are the name of a variable. -/
def Proper : Symbol → Prop
  | mark kind => ∃ c, marks.lookup c = some kind
  | name cs => ∃ v : Variable, cs = v.chars

end Symbol

def spell (file : SourceFile) (t : Token Lexeme) : Symbol :=
  if t.kind = .name then .name (file.slice t.span) else .mark t.kind

def withoutBlanks (cs : List Char) : List Char := cs.filter (fun c => !isBlank c)

/-- No apostrophe comes immediately after a space or tab. -/
def PrimesAttached (cs : List Char) : Prop :=
  cs.IsChain (fun a b => isBlank a = true → b ≠ '\'')

/-- What all marks have in common. -/
theorem marks_spec {c : Char} {kind : Lexeme} (h : marks.lookup c = some kind) :
    isBlank c = false ∧ c ≠ '\'' ∧ c.isLower = false ∧ kind.chars = [c] ∧
      kind ≠ .name ∧ kind ≠ .blank ∧ kind ≠ .endOfInput := by
  obtain ⟨before, behind, hsplit, -⟩ := List.lookup_eq_some_iff.mp h
  have hmem : (c, kind) ∈ marks := by
    rw [hsplit]
    exact List.mem_append_right _ (List.mem_cons_self ..)
  have hall : ∀ m ∈ marks, isBlank m.1 = false ∧ m.1 ≠ '\'' ∧ m.1.isLower = false ∧
      m.2.chars = [m.1] ∧ m.2 ≠ .name ∧ m.2 ≠ .blank ∧ m.2 ≠ .endOfInput := by decide
  exact hall (c, kind) hmem

theorem piece_of_mark {c : Char} {kind : Lexeme} (h : marks.lookup c = some kind)
    (rest : List Char) : piece c rest = some (kind, 1) := by
  rw [piece, h]

theorem piece_of_blank {c : Char} (h : isBlank c = true) (rest : List Char) :
    piece c rest = some (.blank, 1 + (rest.takeWhile isBlank).length) := by
  cases hm : marks.lookup c with
  | none => simp [piece, hm, h]
  | some kind =>
    rw [(marks_spec hm).1] at h
    cases h

theorem isBlank_of_isLower {c : Char} (h : c.isLower = true) : isBlank c = false := by
  cases hb : isBlank c with
  | false => rfl
  | true =>
    have hc : c = ' ' ∨ c = '\t' := by simpa [isBlank] using hb
    rcases hc with rfl | rfl <;> cases h

theorem piece_of_isLower {c : Char} (h : c.isLower = true) (rest : List Char) :
    piece c rest = some (.name, 1 + (rest.takeWhile isPrime).length) := by
  cases hm : marks.lookup c with
  | none => simp [piece, hm, h, isBlank_of_isLower h]
  | some kind =>
    rw [(marks_spec hm).2.2.1] at h
    cases h

theorem piece_cases {c : Char} {rest : List Char} {kind : Lexeme} {n : Nat}
    (h : piece c rest = some (kind, n)) :
    (marks.lookup c = some kind ∧ n = 1) ∨
      (isBlank c = true ∧ kind = .blank ∧ n = 1 + (rest.takeWhile isBlank).length) ∨
      (c.isLower = true ∧ kind = .name ∧ n = 1 + (rest.takeWhile isPrime).length) := by
  unfold piece at h
  split at h
  · next hm =>
    cases h
    exact Or.inl ⟨hm, rfl⟩
  · split at h
    · next hb =>
      cases h
      exact Or.inr (Or.inl ⟨hb, rfl, rfl⟩)
    · split at h
      · next hl =>
        cases h
        exact Or.inr (Or.inr ⟨hl, rfl, rfl⟩)
      · cases h

theorem piece_prime (rest : List Char) : piece '\'' rest = none := rfl

theorem drop_run (p : Char → Bool) (c : Char) (rest : List Char) :
    (c :: rest).drop (1 + (rest.takeWhile p).length) = rest.dropWhile p := by
  have hsplit := List.takeWhile_append_dropWhile (p := p) (l := rest)
  rw [Nat.add_comm, List.drop_succ_cons]
  nth_rewrite 2 [← hsplit]
  exact List.drop_left

theorem take_run (p : Char → Bool) (c : Char) (rest : List Char) :
    (c :: rest).take (1 + (rest.takeWhile p).length) = c :: rest.takeWhile p := by
  have hsplit := List.takeWhile_append_dropWhile (p := p) (l := rest)
  rw [Nat.add_comm, List.take_succ_cons]
  nth_rewrite 2 [← hsplit]
  rw [List.take_left]

theorem takeWhile_isPrime (rest : List Char) :
    rest.takeWhile isPrime = List.replicate (rest.takeWhile isPrime).length '\'' := by
  rw [List.eq_replicate_iff]
  refine ⟨rfl, fun c hc => ?_⟩
  have := List.mem_takeWhile_imp hc
  simpa [isPrime] using this

theorem withoutBlanks_cons_of_blank {c : Char} (h : isBlank c = true) (rest : List Char) :
    withoutBlanks (c :: rest) = withoutBlanks rest := by
  simp [withoutBlanks, h]

theorem withoutBlanks_cons_of_not_blank {c : Char} (h : isBlank c = false) (rest : List Char) :
    withoutBlanks (c :: rest) = c :: withoutBlanks rest := by
  simp [withoutBlanks, h]

theorem withoutBlanks_dropWhile (rest : List Char) :
    withoutBlanks (rest.dropWhile isBlank) = withoutBlanks rest := by
  induction rest with
  | nil => rfl
  | cons c rest ih =>
    by_cases hc : isBlank c = true
    · rw [List.dropWhile_cons_of_pos hc, ih, withoutBlanks_cons_of_blank hc]
    · rw [List.dropWhile_cons_of_neg hc]

theorem withoutBlanks_replicate (k : Nat) (rest : List Char) :
    withoutBlanks (List.replicate k '\'' ++ rest) =
      List.replicate k '\'' ++ withoutBlanks rest := by
  induction k with
  | zero => rfl
  | succ k ih =>
    rw [List.replicate_succ, List.cons_append, withoutBlanks_cons_of_not_blank rfl, ih]
    rfl

theorem withoutBlanks_eq_self {cs : List Char} (h : ∀ c ∈ cs, isBlank c = false) :
    withoutBlanks cs = cs := by
  rw [withoutBlanks, List.filter_eq_self]
  intro c hc
  simp [h c hc]

theorem slice_ofStart (file : SourceFile) (i n : Nat) :
    file.slice (.ofStart i n) = (file.contents.drop i).take n := by
  have hstop : (Span.ofStart i n).stop.toNat = i + n := by
    simp only [Span.ofStart]
    omega
  have hstart : (Span.ofStart i n).start.toNat = i := rfl
  rw [SourceFile.slice, hstop, hstart, List.drop_take]
  congr 1
  omega

/-- No text that begins with a prime can be cut into pieces. -/
theorem Cut.head_ne_prime {i : Nat} {cs : List Char} {ts : List (Token Lexeme)}
    (h : Cut i cs ts) : cs.head? ≠ some '\'' := by
  cases h with
  | stop i => simp
  | next first more =>
    rintro heq
    cases heq
    rw [piece_prime] at first
    cases first

theorem primesAttached_cons_of_not_blank {c : Char} {rest : List Char} (h : isBlank c = false)
    (hrest : PrimesAttached rest) : PrimesAttached (c :: rest) := by
  refine List.IsChain.cons hrest ?_
  intro d _ hc
  rw [h] at hc
  cases hc

theorem primesAttached_of_not_blank {cs : List Char} (h : ∀ c ∈ cs, isBlank c = false) :
    PrimesAttached cs := by
  induction cs with
  | nil => exact .nil
  | cons c rest ih =>
    have hrest : PrimesAttached rest := ih (fun d hd => h d (List.mem_cons_of_mem _ hd))
    exact primesAttached_cons_of_not_blank (h c (List.mem_cons_self ..)) hrest

theorem primesAttached_blanks {rest : List Char}
    (hrest : PrimesAttached (rest.dropWhile isBlank))
    (hhead : (rest.dropWhile isBlank).head? ≠ some '\'') :
    PrimesAttached rest ∧ rest.head? ≠ some '\'' := by
  induction rest with
  | nil => exact ⟨hrest, hhead⟩
  | cons c rest ih =>
    by_cases hc : isBlank c = true
    · rw [List.dropWhile_cons_of_pos hc] at hrest hhead
      obtain ⟨hrest, hhead⟩ := ih hrest hhead
      refine ⟨List.IsChain.cons hrest ?_, ?_⟩
      · rintro d hd - rfl
        exact hhead hd
      · rintro heq
        cases heq
        cases hc
    · rw [List.dropWhile_cons_of_neg hc] at hrest hhead
      exact ⟨hrest, hhead⟩

theorem primesAttached_replicate (k : Nat) {rest : List Char} (h : PrimesAttached rest) :
    PrimesAttached (List.replicate k '\'' ++ rest) := by
  induction k with
  | zero => exact h
  | succ k ih => exact primesAttached_cons_of_not_blank rfl ih

/-- A text that was cut into pieces spells the symbols of its tokens. -/
theorem Cut.spells {file : SourceFile} {i : Nat} {cs : List Char} {ts : List (Token Lexeme)}
    (h : Cut i cs ts) (hcs : file.contents.drop i = cs) :
    ∃ symbols, (visible ts).map (spell file) = symbols ++ [.mark .endOfInput] ∧
      .mark .endOfInput ∉ symbols ∧ withoutBlanks cs = symbols.flatMap Symbol.chars ∧
      PrimesAttached cs := by
  induction h with
  | stop i => exact ⟨[], rfl, List.not_mem_nil, rfl, .nil⟩
  | @next i n c rest kind ts first more ih =>
    have hdrop : file.contents.drop (i + n) = (c :: rest).drop n := by
      rw [← List.drop_drop, hcs]
    have hslice : file.slice (.ofStart i n) = (c :: rest).take n := by
      rw [slice_ofStart, hcs]
    obtain ⟨symbols, hspell, hend, htext, hattached⟩ := ih hdrop
    rcases piece_cases first with ⟨hmark, rfl⟩ | ⟨hblank, rfl, rfl⟩ | ⟨hlower, rfl, rfl⟩
    · obtain ⟨hb, -, -, hchars, hname, hblank, hnot⟩ := marks_spec hmark
      refine ⟨.mark kind :: symbols, ?_, ?_, ?_, primesAttached_cons_of_not_blank hb hattached⟩
      · rw [visible_cons_of_ne hblank, List.map_cons, hspell]
        simp [spell, hname]
      · simp [hend, hnot.symm]
      · rw [withoutBlanks_cons_of_not_blank hb, List.flatMap_cons, ← htext]
        simp [Symbol.chars, hchars]
    · rw [drop_run] at htext hattached
      have hhead := more.head_ne_prime
      rw [drop_run] at hhead
      obtain ⟨hrest, hne⟩ := primesAttached_blanks hattached hhead
      refine ⟨symbols, ?_, hend, ?_, ?_⟩
      · rw [visible_cons_of_blank rfl, hspell]
      · rw [withoutBlanks_cons_of_blank hblank, ← withoutBlanks_dropWhile, htext]
      · refine List.IsChain.cons hrest ?_
        rintro d hd - rfl
        exact hne hd
    · rw [drop_run] at htext hattached
      rw [take_run] at hslice
      have hsplit := List.takeWhile_append_dropWhile (p := isPrime) (l := rest)
      refine ⟨.name (c :: rest.takeWhile isPrime) :: symbols, ?_, ?_, ?_, ?_⟩
      · rw [visible_cons_of_ne (by simp), List.map_cons, hspell]
        simp [spell, hslice]
      · simp [hend]
      · rw [withoutBlanks_cons_of_not_blank (isBlank_of_isLower hlower), List.flatMap_cons,
          ← htext]
        nth_rewrite 1 [← hsplit]
        rw [takeWhile_isPrime, withoutBlanks_replicate]
        rfl
      · refine primesAttached_cons_of_not_blank (isBlank_of_isLower hlower) ?_
        rw [← hsplit, takeWhile_isPrime]
        exact primesAttached_replicate _ hattached

/-- No symbol begins with a prime. -/
theorem head_chars_ne_prime {symbols : List Symbol} (proper : ∀ s ∈ symbols, s.Proper) :
    (symbols.flatMap Symbol.chars).head? ≠ some '\'' := by
  cases symbols with
  | nil => simp
  | cons s symbols =>
    have hs := proper s (List.mem_cons_self ..)
    cases s with
    | mark kind =>
      obtain ⟨c, hc⟩ := hs
      obtain ⟨-, hne, -, hchars, -⟩ := marks_spec hc
      simpa [Symbol.chars, hchars] using hne
    | name cs =>
      obtain ⟨v, rfl⟩ := hs
      simp only [List.flatMap_cons, Symbol.chars, Variable.chars, List.cons_append,
        List.head?_cons, ne_eq, Option.some.injEq]
      intro heq
      have hlower := v.lowercase
      rw [heq] at hlower
      cases hlower

theorem Symbol.Proper.chars_ne_nil {s : Symbol} (h : s.Proper) : s.chars ≠ [] := by
  cases s with
  | mark kind =>
    obtain ⟨c, hc⟩ := h
    simp [chars, (marks_spec hc).2.2.2.1]
  | name cs =>
    obtain ⟨v, rfl⟩ := h
    simp [chars, Variable.chars]

theorem head_withoutBlanks_ne_prime {cs : List Char} (attached : PrimesAttached cs)
    (head : cs.head? ≠ some '\'') : (withoutBlanks cs).head? ≠ some '\'' := by
  induction cs with
  | nil => simp [withoutBlanks]
  | cons c rest ih =>
    by_cases hc : isBlank c = true
    · rw [withoutBlanks_cons_of_blank hc]
      refine ih attached.tail ?_
      cases rest with
      | nil => simp
      | cons d rest =>
        have hd : d ≠ '\'' := (List.isChain_cons_cons.mp attached).1 hc
        simpa using hd
    · have hc : isBlank c = false := by simpa using hc
      rw [withoutBlanks_cons_of_not_blank hc]
      simpa using head

theorem replicate_append_inj {a : Char} {xs ys : List Char} (hx : xs.head? ≠ some a)
    (hy : ys.head? ≠ some a) {k m : Nat}
    (h : List.replicate k a ++ xs = List.replicate m a ++ ys) : k = m ∧ xs = ys := by
  induction k generalizing m with
  | zero =>
    cases m with
    | zero => exact ⟨rfl, h⟩
    | succ m =>
      rw [List.replicate_zero, List.nil_append] at h
      rw [h] at hx
      exact absurd rfl hx
  | succ k ih =>
    cases m with
    | zero =>
      rw [List.replicate_zero, List.nil_append] at h
      rw [← h] at hy
      exact absurd rfl hy
    | succ m =>
      obtain ⟨hkm, hxy⟩ := ih (List.cons.inj h).2
      exact ⟨congrArg (· + 1) hkm, hxy⟩

theorem head_dropWhile_isPrime (rest : List Char) :
    (rest.dropWhile isPrime).head? ≠ some '\'' := by
  intro h
  have := List.head?_dropWhile_not isPrime rest
  rw [h] at this
  cases this

/-- A text that spells symbols is cut into pieces that stand for them. The
pieces are found from the front; the induction is on the length of the text,
since a run of blanks or primes is passed at once. The primes behind a letter are
those of the name, since a later one would be detached. -/
theorem cut_of_spells {file : SourceFile} {i : Nat} {cs : List Char} {symbols : List Symbol}
    (proper : ∀ s ∈ symbols, s.Proper)
    (text : withoutBlanks cs = symbols.flatMap Symbol.chars) (attached : PrimesAttached cs)
    (hcs : file.contents.drop i = cs) :
    ∃ ts, Cut i cs ts ∧ (visible ts).map (spell file) = symbols ++ [.mark .endOfInput] := by
  induction hlen : cs.length using Nat.strongRecOn generalizing i cs symbols with
  | ind size ih =>
    cases cs with
    | nil =>
      have hnone : symbols = [] := by
        cases symbols with
        | nil => rfl
        | cons s more =>
          have hs := (proper s (List.mem_cons_self ..)).chars_ne_nil
          have htext : s.chars ++ more.flatMap Symbol.chars = [] := text.symm
          exact absurd (List.append_eq_nil_iff.mp htext).1 hs
      subst hnone
      exact ⟨_, .stop i, rfl⟩
    | cons c rest =>
      have hdrop : ∀ n, file.contents.drop (i + n) = (c :: rest).drop n := by
        intro n
        rw [← List.drop_drop, hcs]
      have hshort : ∀ n, 0 < n → ((c :: rest).drop n).length < size := by
        intro n hn
        simp only [List.length_drop, List.length_cons] at hlen ⊢
        omega
      by_cases hblank : isBlank c = true
      · have hpiece := piece_of_blank hblank rest
        obtain ⟨hpos, -⟩ := piece_bounds hpiece
        rw [withoutBlanks_cons_of_blank hblank, ← withoutBlanks_dropWhile, ← drop_run _ c] at text
        obtain ⟨ts, hts, hspell⟩ := ih _ (hshort _ hpos) proper text (attached.drop _) (hdrop _) rfl
        exact ⟨_, .next hpiece hts, by rw [visible_cons_of_blank rfl, hspell]⟩
      have hblank : isBlank c = false := by simpa using hblank
      rw [withoutBlanks_cons_of_not_blank hblank] at text
      cases symbols with
      | nil => cases text
      | cons s more =>
        have hs := proper s (List.mem_cons_self ..)
        have hmore : ∀ s ∈ more, s.Proper := fun s hm => proper s (List.mem_cons_of_mem _ hm)
        rw [List.flatMap_cons] at text
        cases s with
        | mark kind =>
          obtain ⟨d, hd⟩ := hs
          obtain ⟨-, -, -, hchars, hname, hkind, -⟩ := marks_spec hd
          simp only [Symbol.chars, hchars, List.singleton_append, List.cons.injEq] at text
          obtain ⟨rfl, text⟩ := text
          obtain ⟨ts, hts, hspell⟩ :=
            ih _ (hshort 1 (by omega)) hmore text attached.tail (hdrop 1) rfl
          refine ⟨_, .next (piece_of_mark hd rest) hts, ?_⟩
          rw [visible_cons_of_ne hkind, List.map_cons, hspell]
          simp [spell, hname]
        | name cs =>
          obtain ⟨v, rfl⟩ := hs
          simp only [Symbol.chars, Variable.chars, List.cons_append, List.cons.injEq] at text
          obtain ⟨rfl, text⟩ := text
          have hpiece := piece_of_isLower v.lowercase rest
          obtain ⟨hpos, -⟩ := piece_bounds hpiece
          have hsplit := List.takeWhile_append_dropWhile (p := isPrime) (l := rest)
          rw [← hsplit, takeWhile_isPrime, withoutBlanks_replicate] at text
          have hdetached : PrimesAttached (rest.dropWhile isPrime) := by
            rw [← drop_run _ v.letter]
            exact attached.drop _
          obtain ⟨hprimes, text⟩ := replicate_append_inj
            (head_withoutBlanks_ne_prime hdetached (head_dropWhile_isPrime rest))
            (head_chars_ne_prime hmore) text
          rw [← drop_run _ v.letter] at text
          obtain ⟨ts, hts, hspell⟩ :=
            ih _ (hshort _ hpos) hmore text (attached.drop _) (hdrop _) rfl
          refine ⟨_, .next hpiece hts, ?_⟩
          rw [visible_cons_of_ne (by simp), List.map_cons, hspell]
          simp only [spell, if_true, slice_ofStart, hcs, take_run, List.cons_append,
            Variable.chars, ← hprimes]
          rw [← takeWhile_isPrime]

end Grammar

end Typographical
