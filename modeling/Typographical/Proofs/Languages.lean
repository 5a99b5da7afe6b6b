import Mathlib.Computability.Language
import Typographical.Proofs.Reading

/-!
# The languages of terms and formulas

Terms and formulas are printed with lists of symbols, and these lists are two
languages. No word of either begins another one, so that a list of symbols can be
taken apart in one way only. What a word may go on with after its first symbol is
again described by these languages: nothing, another word, or several words with
single symbols between them.
-/

namespace Typographical

theorem Variable.chars_injective {v w : Variable} (h : v.chars = w.chars) : v = w := by
  have hv : ofChars? v.chars = some v := ofChars?_eq_some_iff.mpr rfl
  have hw : ofChars? v.chars = some w := ofChars?_eq_some_iff.mpr h
  exact Option.some.inj (hv.symm.trans hw)

namespace Grammar

/-- No list of symbols begins with two words. -/
def PrefixFree (L : Language Symbol) : Prop :=
  ∀ u ∈ L, ∀ v ∈ L, ∀ xs ys, u ++ xs = v ++ ys → u = v

def single (S : Set Symbol) : Language Symbol := {w | ∃ s ∈ S, w = [s]}

def names : Set Symbol := {s | ∃ v : Variable, s = .name v.chars}

def operators : Set Symbol := {.mark .plus, .mark .times}

def connectives : Set Symbol := {s | ∃ op, s = .mark (connectiveLexeme op)}

def beginnings : Set Symbol :=
  {.mark .zero, .mark .successor, .mark .leftParenthesis} ∪ names

/-- What terms are printed with. -/
def terms : Language Symbol := Set.range termSymbols

def formulas : Language Symbol := Set.range formulaSymbols

def equalities : Language Symbol := terms * (single {.mark .equals} * terms)

theorem cons_mem_single_iff {S : Set Symbol} {s : Symbol} {w : List Symbol} :
    s :: w ∈ single S ↔ s ∈ S ∧ w = [] := by
  constructor
  · rintro ⟨s', hs, h⟩
    cases h
    exact ⟨hs, rfl⟩
  · rintro ⟨hs, rfl⟩
    exact ⟨s, hs, rfl⟩

theorem nil_notMem_single (S : Set Symbol) : [] ∉ single S := by
  rintro ⟨s, -, h⟩
  cases h

theorem prefixFree_single (S : Set Symbol) : PrefixFree (single S) := by
  rintro _ ⟨s, -, rfl⟩ _ ⟨s', -, rfl⟩ xs ys h
  rw [(List.cons.inj h).1]

theorem PrefixFree.mul {L M : Language Symbol} (hL : PrefixFree L) (hM : PrefixFree M) :
    PrefixFree (L * M) := by
  rintro _ ⟨u, hu, v, hv, rfl⟩ _ ⟨u', hu', v', hv', rfl⟩ xs ys h
  simp only [List.append_assoc] at h
  have huu : u = u' := hL u hu u' hu' _ _ h
  rw [huu, List.append_cancel_left_eq] at h
  have hvv : v = v' := hM v hv v' hv' _ _ h
  rw [huu, hvv]

/-- Two parts with a symbol between them and one behind them can be told apart if
each part can. -/
theorem bracketed_inj {β : Type} {symbols : β → List Symbol} {l r l' r' : β} {op op' c : Symbol}
    {xs ys : List Symbol}
    (left : ∀ {u xs ys}, symbols l ++ xs = symbols u ++ ys → l = u ∧ xs = ys)
    (right : ∀ {u xs ys}, symbols r ++ xs = symbols u ++ ys → r = u ∧ xs = ys)
    (h : symbols l ++ op :: (symbols r ++ c :: xs) =
      symbols l' ++ op' :: (symbols r' ++ c :: ys)) :
    op = op' ∧ l = l' ∧ r = r' ∧ xs = ys := by
  obtain ⟨hl, h⟩ := left h
  obtain ⟨hop, h⟩ := List.cons.inj h
  obtain ⟨hr, h⟩ := right h
  exact ⟨hop, hl, hr, (List.cons.inj h).2⟩

/-- A list begins with the symbols of at most one term. -/
theorem termSymbols_append_inj {t u : Term} {xs ys : List Symbol}
    (h : termSymbols t ++ xs = termSymbols u ++ ys) : t = u ∧ xs = ys := by
  induction t generalizing u xs ys with
  | zero =>
    cases u with
    | zero => exact ⟨rfl, (List.cons.inj h).2⟩
    | var | succ | sum | product => simp [termSymbols] at h
  | var v =>
    cases u with
    | var w =>
      obtain ⟨hname, hrest⟩ := List.cons.inj h
      exact ⟨congrArg Term.var (Variable.chars_injective (Symbol.name.inj hname)), hrest⟩
    | zero | succ | sum | product => simp [termSymbols] at h
  | succ t ih =>
    cases u with
    | succ u =>
      obtain ⟨rfl, hrest⟩ := ih (List.cons.inj h).2
      exact ⟨rfl, hrest⟩
    | zero | var | sum | product => simp [termSymbols] at h
  | sum l r ihl ihr =>
    cases u with
    | sum l' r' =>
      simp only [termSymbols, List.cons_append, List.append_assoc, List.nil_append,
        List.cons.injEq, true_and] at h
      obtain ⟨-, rfl, rfl, hrest⟩ := bracketed_inj ihl ihr h
      exact ⟨rfl, hrest⟩
    | product l' r' =>
      simp only [termSymbols, List.cons_append, List.append_assoc, List.nil_append,
        List.cons.injEq, true_and] at h
      cases (bracketed_inj ihl ihr h).1
    | zero | var | succ => simp [termSymbols] at h
  | product l r ihl ihr =>
    cases u with
    | product l' r' =>
      simp only [termSymbols, List.cons_append, List.append_assoc, List.nil_append,
        List.cons.injEq, true_and] at h
      obtain ⟨-, rfl, rfl, hrest⟩ := bracketed_inj ihl ihr h
      exact ⟨rfl, hrest⟩
    | sum l' r' =>
      simp only [termSymbols, List.cons_append, List.append_assoc, List.nil_append,
        List.cons.injEq, true_and] at h
      cases (bracketed_inj ihl ihr h).1
    | zero | var | succ => simp [termSymbols] at h

theorem mem_beginnings {t : Term} {s : Symbol} {xs ys : List Symbol}
    (h : s :: xs = termSymbols t ++ ys) : s ∈ beginnings := by
  cases t with
  | var v => exact Or.inr ⟨v, (List.cons.inj h).1⟩
  | zero | succ | sum | product => exact Or.inl (by simp [(List.cons.inj h).1])

theorem quantifierLexeme_injective {q q' : Quantifier}
    (h : quantifierLexeme q = quantifierLexeme q') : q = q' := by
  cases q <;> cases q' <;> first | rfl | cases h

theorem connectiveLexeme_injective {op op' : Connective}
    (h : connectiveLexeme op = connectiveLexeme op') : op = op' := by
  cases op <;> cases op' <;> first | rfl | cases h

theorem notMem_beginnings {kind : Lexeme}
    (h : kind ∈ [Lexeme.leftBracket, .tilde, .forAll, .thereIs]) :
    Symbol.mark kind ∉ beginnings := by
  rintro (hmark | ⟨v, hname⟩)
  · simp only [Set.mem_insert_iff, Set.mem_singleton_iff, Symbol.mark.injEq] at hmark
    rcases hmark with rfl | rfl | rfl <;> simp at h
  · cases hname

/-- An equality begins with a term. -/
theorem equality_ne_mark {l r : Term} {kind : Lexeme} {xs ys : List Symbol}
    (hkind : kind ∈ [Lexeme.leftBracket, .tilde, .forAll, .thereIs]) :
    formulaSymbols (.equality l r) ++ xs ≠ .mark kind :: ys := by
  intro h
  rw [formulaSymbols, List.append_assoc] at h
  exact notMem_beginnings hkind (mem_beginnings h.symm)

theorem ne_mark_of_equality {l r : Term} {kind : Lexeme} {ys : List Symbol}
    (hkind : kind ∈ [Lexeme.leftBracket, .tilde, .forAll, .thereIs]) :
    formulaSymbols (.equality l r) ≠ .mark kind :: ys := by
  rw [← List.append_nil (formulaSymbols (.equality l r))]
  exact equality_ne_mark hkind

theorem quantifierLexeme_mem (q : Quantifier) :
    quantifierLexeme q ∈ [Lexeme.leftBracket, .tilde, .forAll, .thereIs] := by
  cases q <;> simp [quantifierLexeme]

/-- A list begins with the symbols of at most one formula. -/
theorem formulaSymbols_append_inj {f g : Formula} {xs ys : List Symbol}
    (h : formulaSymbols f ++ xs = formulaSymbols g ++ ys) : f = g ∧ xs = ys := by
  induction f generalizing g xs ys with
  | equality l r =>
    cases g with
    | equality l' r' =>
      simp only [formulaSymbols, List.append_assoc, List.cons_append] at h
      obtain ⟨rfl, hbehind⟩ := termSymbols_append_inj h
      obtain ⟨rfl, hrest⟩ := termSymbols_append_inj (List.cons.inj hbehind).2
      exact ⟨rfl, hrest⟩
    | neg g => exact absurd h (equality_ne_mark (by simp))
    | binary op l' r' => exact absurd h (equality_ne_mark (by simp))
    | quantified q v g => exact absurd h (equality_ne_mark (quantifierLexeme_mem q))
  | neg f ih =>
    cases g with
    | equality l r => exact absurd h.symm (equality_ne_mark (by simp))
    | neg g =>
      obtain ⟨rfl, hrest⟩ := ih (List.cons.inj h).2
      exact ⟨rfl, hrest⟩
    | binary op l r => simp [formulaSymbols] at h
    | quantified q v g => cases q <;> simp [formulaSymbols, quantifierLexeme] at h
  | binary op l r ihl ihr =>
    cases g with
    | equality l' r' => exact absurd h.symm (equality_ne_mark (by simp))
    | neg g => simp [formulaSymbols] at h
    | binary op' l' r' =>
      simp only [formulaSymbols, List.cons_append, List.append_assoc, List.nil_append,
        List.cons.injEq, true_and] at h
      obtain ⟨hop, rfl, rfl, hrest⟩ := bracketed_inj ihl ihr h
      exact ⟨by rw [connectiveLexeme_injective (Symbol.mark.inj hop)], hrest⟩
    | quantified q v g => cases q <;> simp [formulaSymbols, quantifierLexeme] at h
  | quantified q v f ih =>
    cases g with
    | equality l r => exact absurd h.symm (equality_ne_mark (quantifierLexeme_mem q))
    | neg g => cases q <;> simp [formulaSymbols, quantifierLexeme] at h
    | binary op l r => cases q <;> simp [formulaSymbols, quantifierLexeme] at h
    | quantified q' v' g =>
      simp only [formulaSymbols, List.cons_append, List.cons.injEq, Symbol.mark.injEq,
        Symbol.name.injEq, true_and] at h
      obtain ⟨hq, hv, h⟩ := h
      obtain ⟨rfl, hrest⟩ := ih h
      exact ⟨by rw [quantifierLexeme_injective hq, Variable.chars_injective hv], hrest⟩

theorem prefixFree_terms : PrefixFree terms := by
  rintro _ ⟨t, rfl⟩ _ ⟨u, rfl⟩ xs ys h
  rw [(termSymbols_append_inj h).1]

theorem prefixFree_formulas : PrefixFree formulas := by
  rintro _ ⟨f, rfl⟩ _ ⟨g, rfl⟩ xs ys h
  rw [(formulaSymbols_append_inj h).1]

theorem nil_notMem_terms : [] ∉ terms := by
  rintro ⟨t, ht⟩
  cases t <;> simp [termSymbols] at ht

theorem nil_notMem_formulas : [] ∉ formulas := by
  rintro ⟨f, hf⟩
  cases f <;> simp [formulaSymbols] at hf

theorem zero_mem_terms : [.mark .zero] ∈ terms := ⟨.zero, rfl⟩

theorem name_mem_terms (v : Variable) : [.name v.chars] ∈ terms := ⟨.var v, rfl⟩

theorem zero_eq_zero_mem_formulas : formulaSymbols (.equality .zero .zero) ∈ formulas := ⟨_, rfl⟩

theorem cons_notMem_terms {s : Symbol} (h : s ∉ beginnings) (w : List Symbol) : s :: w ∉ terms := by
  rintro ⟨t, ht⟩
  rw [← List.append_nil (termSymbols t)] at ht
  exact h (mem_beginnings ht.symm)

theorem successor_cons_mem_terms {w : List Symbol} :
    .mark .successor :: w ∈ terms ↔ w ∈ terms := by
  constructor
  · rintro ⟨t, ht⟩
    cases t with
    | succ t => exact ⟨t, (List.cons.inj ht).2⟩
    | zero | var | sum | product => simp [termSymbols] at ht
  · rintro ⟨t, rfl⟩
    exact ⟨.succ t, rfl⟩

theorem parenthesis_cons_mem_terms {w : List Symbol} :
    .mark .leftParenthesis :: w ∈ terms ↔
      w ∈ terms * (single operators * (terms * single {.mark .rightParenthesis})) := by
  constructor
  · rintro ⟨t, ht⟩
    cases t with
    | sum l r =>
      refine ⟨_, ⟨l, rfl⟩, _, ⟨_, ⟨.mark .plus, Or.inl rfl, rfl⟩, _,
        ⟨_, ⟨r, rfl⟩, _, ⟨_, rfl, rfl⟩, rfl⟩, rfl⟩, ?_⟩
      simpa [termSymbols] using ht
    | product l r =>
      refine ⟨_, ⟨l, rfl⟩, _, ⟨_, ⟨.mark .times, Or.inr rfl, rfl⟩, _,
        ⟨_, ⟨r, rfl⟩, _, ⟨_, rfl, rfl⟩, rfl⟩, rfl⟩, ?_⟩
      simpa [termSymbols] using ht
    | zero | var | succ => simp [termSymbols] at ht
  · rintro ⟨_, ⟨l, rfl⟩, _, ⟨_, ⟨s, hs, rfl⟩, _, ⟨_, ⟨r, rfl⟩, _, ⟨_, rfl, rfl⟩, rfl⟩, rfl⟩, rfl⟩
    rcases hs with rfl | rfl
    · exact ⟨.sum l r, by simp [termSymbols]⟩
    · exact ⟨.product l r, by simp [termSymbols]⟩

theorem tilde_cons_mem_formulas {w : List Symbol} :
    .mark .tilde :: w ∈ formulas ↔ w ∈ formulas := by
  constructor
  · rintro ⟨f, hf⟩
    cases f with
    | neg f => exact ⟨f, (List.cons.inj hf).2⟩
    | equality l r => exact absurd hf (ne_mark_of_equality (by simp))
    | binary op l r => simp [formulaSymbols] at hf
    | quantified q v f => cases q <;> simp [formulaSymbols, quantifierLexeme] at hf
  · rintro ⟨f, rfl⟩
    exact ⟨.neg f, rfl⟩

theorem bracket_cons_mem_formulas {w : List Symbol} :
    .mark .leftBracket :: w ∈ formulas ↔
      w ∈ formulas * (single connectives * (formulas * single {.mark .rightBracket})) := by
  constructor
  · rintro ⟨f, hf⟩
    cases f with
    | binary op l r =>
      refine ⟨_, ⟨l, rfl⟩, _, ⟨_, ⟨_, ⟨op, rfl⟩, rfl⟩, _,
        ⟨_, ⟨r, rfl⟩, _, ⟨_, rfl, rfl⟩, rfl⟩, rfl⟩, ?_⟩
      simpa [formulaSymbols] using hf
    | equality l r => exact absurd hf (ne_mark_of_equality (by simp))
    | neg f => simp [formulaSymbols] at hf
    | quantified q v f => cases q <;> simp [formulaSymbols, quantifierLexeme] at hf
  · rintro ⟨_, ⟨l, rfl⟩, _, ⟨_, ⟨_, ⟨op, rfl⟩, rfl⟩, _, ⟨_, ⟨r, rfl⟩, _, ⟨_, rfl, rfl⟩, rfl⟩, rfl⟩,
      rfl⟩
    exact ⟨.binary op l r, by simp [formulaSymbols]⟩

theorem quantifier_cons_mem_formulas {q : Quantifier} {w : List Symbol} :
    .mark (quantifierLexeme q) :: w ∈ formulas ↔
      w ∈ single names * single {.mark .colon} * formulas := by
  rw [mul_assoc]
  constructor
  · rintro ⟨f, hf⟩
    cases f with
    | quantified q' v f =>
      refine ⟨_, ⟨_, ⟨v, rfl⟩, rfl⟩, _, ⟨_, ⟨_, rfl, rfl⟩, _, ⟨f, rfl⟩, rfl⟩, ?_⟩
      simpa [formulaSymbols] using (List.cons.inj hf).2
    | equality l r => exact absurd hf (ne_mark_of_equality (quantifierLexeme_mem q))
    | neg f => cases q <;> simp [formulaSymbols, quantifierLexeme] at hf
    | binary op l r => cases q <;> simp [formulaSymbols, quantifierLexeme] at hf
  · rintro ⟨_, ⟨_, ⟨v, rfl⟩, rfl⟩, _, ⟨_, ⟨_, rfl, rfl⟩, _, ⟨f, rfl⟩, rfl⟩, rfl⟩
    exact ⟨.quantified q v f, rfl⟩

theorem equality_mem_equalities (l r : Term) : formulaSymbols (.equality l r) ∈ equalities :=
  ⟨_, ⟨l, rfl⟩, _, ⟨_, ⟨_, rfl, rfl⟩, _, ⟨r, rfl⟩, rfl⟩, by simp [formulaSymbols]⟩

theorem mem_formulas_of_mem_equalities {w : List Symbol} (h : w ∈ equalities) :
    w ∈ formulas := by
  obtain ⟨_, ⟨l, rfl⟩, _, ⟨_, ⟨_, rfl, rfl⟩, _, ⟨r, rfl⟩, rfl⟩, rfl⟩ := h
  exact ⟨.equality l r, by simp [formulaSymbols]⟩

/-- A formula that begins like no other formula is an equality. -/
theorem mem_equalities_of_cons_mem_formulas {s : Symbol} {w : List Symbol}
    (hs : ∀ kind ∈ [Lexeme.leftBracket, .tilde, .forAll, .thereIs], s ≠ .mark kind)
    (h : s :: w ∈ formulas) : s :: w ∈ equalities := by
  obtain ⟨f, hf⟩ := h
  cases f with
  | equality l r =>
    rw [← hf]
    exact equality_mem_equalities l r
  | neg f => exact absurd (List.cons.inj hf).1.symm (hs _ (by simp))
  | binary op l r => exact absurd (List.cons.inj hf).1.symm (hs _ (by simp))
  | quantified q v f => exact absurd (List.cons.inj hf).1.symm (hs _ (quantifierLexeme_mem q))

end Grammar

end Typographical
