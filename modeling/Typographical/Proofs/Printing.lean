import Typographical.Proofs.Symbols

/-!
# What terms and formulas are printed with

The text of a term or formula is the text of a list of symbols, and every one of
these can be spelled. There are no blanks among its characters, and nothing but
letters, primes and marks.
-/

namespace Typographical

namespace Grammar

def connectiveLexeme : Connective → Lexeme
  | .and => .and
  | .or => .or
  | .implies => .implies

def quantifierLexeme : Quantifier → Lexeme
  | .forAll => .forAll
  | .thereIs => .thereIs

def termSymbols : Term → List Symbol
  | .zero => [.mark .zero]
  | .var v => [.name v.chars]
  | .succ t => .mark .successor :: termSymbols t
  | .sum l r =>
    .mark .leftParenthesis :: termSymbols l ++ .mark .plus :: termSymbols r ++
      [.mark .rightParenthesis]
  | .product l r =>
    .mark .leftParenthesis :: termSymbols l ++ .mark .times :: termSymbols r ++
      [.mark .rightParenthesis]

def formulaSymbols : Formula → List Symbol
  | .equality l r => termSymbols l ++ .mark .equals :: termSymbols r
  | .neg f => .mark .tilde :: formulaSymbols f
  | .binary op l r =>
    .mark .leftBracket :: formulaSymbols l ++ .mark (connectiveLexeme op) :: formulaSymbols r ++
      [.mark .rightBracket]
  | .quantified q v f =>
    .mark (quantifierLexeme q) :: .name v.chars :: .mark .colon :: formulaSymbols f

theorem chars_termSymbols (t : Term) : (termSymbols t).flatMap Symbol.chars = t.chars := by
  induction t with
  | zero => rfl
  | var v => simp [termSymbols, Symbol.chars, Term.chars]
  | succ t ih => simp [termSymbols, Symbol.chars, Lexeme.chars, Term.chars, ih]
  | sum l r ihl ihr => simp [termSymbols, Symbol.chars, Lexeme.chars, Term.chars, ihl, ihr]
  | product l r ihl ihr => simp [termSymbols, Symbol.chars, Lexeme.chars, Term.chars, ihl, ihr]

theorem chars_formulaSymbols (f : Formula) :
    (formulaSymbols f).flatMap Symbol.chars = f.chars := by
  induction f with
  | equality l r =>
    simp [formulaSymbols, Symbol.chars, Lexeme.chars, Formula.chars, chars_termSymbols]
  | neg f ih => simp [formulaSymbols, Symbol.chars, Lexeme.chars, Formula.chars, ih]
  | binary op l r ihl ihr =>
    cases op <;> simp [formulaSymbols, connectiveLexeme, Symbol.chars, Lexeme.chars, Formula.chars,
      Connective.symbol, ihl, ihr]
  | quantified q v f ih =>
    cases q <;> simp [formulaSymbols, quantifierLexeme, Symbol.chars, Lexeme.chars, Formula.chars,
      Quantifier.symbol, ih]

theorem proper_mark {c : Char} {kind : Lexeme} (h : marks.lookup c = some kind) :
    (Symbol.mark kind).Proper := ⟨c, h⟩

theorem proper_name (v : Variable) : (Symbol.name v.chars).Proper := ⟨v, rfl⟩

theorem proper_termSymbols (t : Term) : ∀ s ∈ termSymbols t, s.Proper := by
  induction t with
  | zero => simpa [termSymbols] using proper_mark (c := '0') rfl
  | var v => simpa [termSymbols] using proper_name v
  | succ t ih =>
    simp only [termSymbols, List.forall_mem_cons]
    exact ⟨proper_mark (c := 'S') rfl, ih⟩
  | sum l r ihl ihr =>
    simp only [termSymbols, List.forall_mem_append, List.forall_mem_cons]
    exact ⟨⟨⟨proper_mark (c := '(') rfl, ihl⟩, proper_mark (c := '+') rfl, ihr⟩,
      proper_mark (c := ')') rfl, List.forall_mem_nil _⟩
  | product l r ihl ihr =>
    simp only [termSymbols, List.forall_mem_append, List.forall_mem_cons]
    exact ⟨⟨⟨proper_mark (c := '(') rfl, ihl⟩, proper_mark (c := '*') rfl, ihr⟩,
      proper_mark (c := ')') rfl, List.forall_mem_nil _⟩

theorem proper_formulaSymbols (f : Formula) : ∀ s ∈ formulaSymbols f, s.Proper := by
  induction f with
  | equality l r =>
    simp only [formulaSymbols, List.forall_mem_append, List.forall_mem_cons]
    exact ⟨proper_termSymbols l, proper_mark (c := '=') rfl, proper_termSymbols r⟩
  | neg f ih =>
    simp only [formulaSymbols, List.forall_mem_cons]
    exact ⟨proper_mark (c := '~') rfl, ih⟩
  | binary op l r ihl ihr =>
    have hop : marks.lookup op.symbol = some (connectiveLexeme op) := by cases op <;> rfl
    simp only [formulaSymbols, List.forall_mem_append, List.forall_mem_cons]
    exact ⟨⟨⟨proper_mark (c := '[') rfl, ihl⟩, proper_mark hop, ihr⟩,
      proper_mark (c := ']') rfl, List.forall_mem_nil _⟩
  | quantified q v f ih =>
    have hq : marks.lookup q.symbol = some (quantifierLexeme q) := by cases q <;> rfl
    simp only [formulaSymbols, List.forall_mem_cons]
    exact ⟨proper_mark hq, proper_name v, proper_mark (c := ':') rfl, ih⟩

/-- Whether terms and formulas are written with a character: a letter, a prime or
a mark. -/
def inAlphabet (c : Char) : Bool := c.isLower || isPrime c || (marks.lookup c).isSome

theorem inAlphabet_of_proper {symbols : List Symbol} (proper : ∀ s ∈ symbols, s.Proper) :
    ∀ c ∈ symbols.flatMap Symbol.chars, inAlphabet c = true := by
  intro c hc
  obtain ⟨s, hs, hc⟩ := List.mem_flatMap.mp hc
  have hproper := proper s hs
  cases s with
  | mark kind =>
    obtain ⟨d, hd⟩ := hproper
    obtain ⟨-, -, -, hchars, -⟩ := marks_spec hd
    rw [Symbol.chars, hchars, List.mem_singleton] at hc
    simp [inAlphabet, hc, hd]
  | name cs =>
    obtain ⟨v, rfl⟩ := hproper
    rcases List.mem_cons.mp hc with rfl | hc
    · simp [inAlphabet, v.lowercase]
    · rw [List.eq_of_mem_replicate hc]
      rfl

theorem not_isBlank_of_inAlphabet {c : Char} (h : inAlphabet c = true) : isBlank c = false := by
  by_contra hblank
  simp only [isBlank, Bool.not_eq_false, Bool.or_eq_true, decide_eq_true_eq] at hblank
  rcases hblank with rfl | rfl
  · exact absurd h (by decide)
  · exact absurd h (by decide)

theorem not_isBlank_of_proper {symbols : List Symbol} (proper : ∀ s ∈ symbols, s.Proper) :
    ∀ c ∈ symbols.flatMap Symbol.chars, isBlank c = false :=
  fun c hc => not_isBlank_of_inAlphabet (inAlphabet_of_proper proper c hc)

end Grammar

theorem Term.inAlphabet_of_mem_chars {t : Term} {c : Char} (h : c ∈ t.chars) :
    Grammar.inAlphabet c = true := by
  rw [← Grammar.chars_termSymbols] at h
  exact Grammar.inAlphabet_of_proper (Grammar.proper_termSymbols t) c h

theorem Formula.inAlphabet_of_mem_chars {f : Formula} {c : Char} (h : c ∈ f.chars) :
    Grammar.inAlphabet c = true := by
  rw [← Grammar.chars_formulaSymbols] at h
  exact Grammar.inAlphabet_of_proper (Grammar.proper_formulaSymbols f) c h

end Typographical
