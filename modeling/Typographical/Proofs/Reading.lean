import Typographical.Proofs.Outcome
import Typographical.Proofs.Printing
import Typographical.Proofs.WellFormed

/-!
# Reading is the inverse of printing

A term or formula is read from the front of a list of tokens exactly if the
symbols of these begin with the symbols that it is printed with. Nothing else is
accepted, and no such list is refused: as many levels of nesting as there are
tokens are enough.

Together with what a text spells this says which texts are read as what. It does
not say where a text that cannot be read is complained about.
-/

namespace Typographical

theorem Variable.ofChars?_eq_some_iff {cs : List Char} {v : Variable} :
    ofChars? cs = some v ↔ cs = v.chars := by
  constructor
  · intro h
    unfold ofChars? at h
    split at h
    · cases h
    · next c rest =>
      split at h
      · split at h
        · next hall =>
          cases h
          have hrest : rest = List.replicate rest.length '\'' := by
            rw [List.eq_replicate_iff]
            exact ⟨rfl, by simpa using hall⟩
          exact congrArg (c :: ·) hrest
        · cases h
      · cases h
  · rintro rfl
    simp [ofChars?, chars, v.lowercase]

namespace Grammar

variable {file : SourceFile}

theorem spell_eq_mark_iff {t : Token Lexeme} {kind : Lexeme} :
    spell file t = .mark kind ↔ t.kind = kind ∧ kind ≠ .name := by
  unfold spell
  split
  · next h =>
    simp only [reduceCtorEq, false_iff, not_and, not_not]
    rintro rfl
    exact h
  · next h =>
    rw [Symbol.mark.injEq]
    constructor
    · rintro rfl
      exact ⟨rfl, h⟩
    · exact And.left

theorem spell_eq_name_iff {t : Token Lexeme} {cs : List Char} :
    spell file t = .name cs ↔ t.kind = .name ∧ file.slice t.span = cs := by
  unfold spell
  split
  · next h => simp [h]
  · next h => simp [h]

/-- The next token if the next symbol is a mark. -/
theorem exists_mark {input : Input} {kind : Lexeme} {more : List Symbol}
    (h : input.map (spell file) = .mark kind :: more) :
    ∃ span rest, input = ⟨kind, span⟩ :: rest ∧ rest.map (spell file) = more := by
  obtain ⟨⟨kind', span⟩, rest, rfl, ht, hrest⟩ := List.map_eq_cons_iff.mp h
  obtain ⟨rfl, -⟩ := spell_eq_mark_iff.mp ht
  exact ⟨span, rest, rfl, hrest⟩

/-- The next token if the next symbol is a name. -/
theorem exists_name {input : Input} {cs : List Char} {more : List Symbol}
    (h : input.map (spell file) = .name cs :: more) :
    ∃ span rest, input = ⟨.name, span⟩ :: rest ∧ file.slice span = cs ∧
      rest.map (spell file) = more := by
  obtain ⟨⟨kind, span⟩, rest, rfl, ht, hrest⟩ := List.map_eq_cons_iff.mp h
  obtain ⟨rfl, hslice⟩ := spell_eq_name_iff.mp ht
  exact ⟨span, rest, rfl, hslice, hrest⟩

/-- Behind the last token there is nothing but the end of input. -/
theorem eq_cons_of_lookahead {input : Input} {kind : Lexeme} {span : Span}
    (h : lookahead file input = ⟨kind, span⟩) (hkind : kind ≠ .endOfInput) :
    input = ⟨kind, span⟩ :: input.tail := by
  cases input with
  | nil =>
    cases h
    exact absurd rfl hkind
  | cons t rest => exact congrArg (· :: rest) h

theorem map_of_lookahead {input : Input} {kind : Lexeme} {span : Span}
    (h : lookahead file input = ⟨kind, span⟩) (hkind : kind ≠ .endOfInput) (hname : kind ≠ .name) :
    input.map (spell file) = .mark kind :: input.tail.map (spell file) := by
  nth_rewrite 1 [eq_cons_of_lookahead h hkind]
  rw [List.map_cons, spell_eq_mark_iff.mpr ⟨rfl, hname⟩]

theorem nameAt_eq_ok_iff {span : Span} {v : Variable} :
    nameAt file span = .ok v ↔ file.slice span = v.chars := by
  rw [← Variable.ofChars?_eq_some_iff, nameAt]
  split
  · next w hw => simp [hw]
  · next hw => simp [hw]

theorem expect_eq_ok_iff {kind : Lexeme} {c : Complaint} {input : Input} {r : Reading Unit} :
    expect file kind c input = .ok r ↔ input = ⟨kind, r.last⟩ :: r.rest := by
  obtain ⟨⟨⟩, last, rest⟩ := r
  unfold expect
  split
  · simp
  · next t rest' =>
    obtain ⟨kind', span⟩ := t
    split
    · next hk =>
      have hk : kind' = kind := hk
      simp [hk]
    · next hk =>
      have hk : ¬ kind' = kind := hk
      simp [hk]

theorem operator_eq_ok_iff {input : Input} {r : Reading (Term → Term → Term)} :
    operator file input = .ok r ↔
      input = ⟨.plus, r.last⟩ :: r.rest ∧ r.value = .sum ∨
        input = ⟨.times, r.last⟩ :: r.rest ∧ r.value = .product := by
  constructor
  · intro h
    unfold operator at h
    split at h
    · next hl =>
      cases h
      exact Or.inl ⟨eq_cons_of_lookahead hl (by decide), rfl⟩
    · next hl =>
      cases h
      exact Or.inr ⟨eq_cons_of_lookahead hl (by decide), rfl⟩
    · cases h
  · obtain ⟨value, last, rest⟩ := r
    rintro (⟨rfl, rfl⟩ | ⟨rfl, rfl⟩)
    · rfl
    · rfl

theorem connective_eq_ok_iff {input : Input} {r : Reading Connective} :
    connective file input = .ok r ↔ input = ⟨connectiveLexeme r.value, r.last⟩ :: r.rest := by
  constructor
  · intro h
    unfold connective at h
    split at h
    · next hl =>
      cases h
      exact eq_cons_of_lookahead hl (by simp [connectiveLexeme])
    · next hl =>
      cases h
      exact eq_cons_of_lookahead hl (by simp [connectiveLexeme])
    · next hl =>
      cases h
      exact eq_cons_of_lookahead hl (by simp [connectiveLexeme])
    · cases h
  · obtain ⟨op, last, rest⟩ := r
    rintro rfl
    cases op <;> rfl

theorem readQuantified_eq_ok_iff {input : Input} {r : Reading Variable} :
    readQuantified file input = .ok r ↔
      ∃ span, input = ⟨.name, span⟩ :: ⟨.colon, r.last⟩ :: r.rest ∧
        file.slice span = r.value.chars := by
  simp only [readQuantified, bind_eq_ok_iff, expect_eq_ok_iff, nameAt_eq_ok_iff]
  constructor
  · rintro ⟨name, rfl, colon, hcolon, v, hv, hr⟩
    cases hr
    exact ⟨name.last, by rw [hcolon], hv⟩
  · obtain ⟨v, last, rest⟩ := r
    rintro ⟨span, rfl, hv⟩
    exact ⟨⟨(), span, _⟩, rfl, ⟨(), last, rest⟩, rfl, v, hv, rfl⟩

/-- What is read from the front are the symbols of the term. -/
theorem map_of_readTerm {depth : Nat} {input : Input} {r : Reading Term}
    (h : readTerm file depth input = .ok r) :
    input.map (spell file) = termSymbols r.value ++ r.rest.map (spell file) := by
  induction depth generalizing input r with
  | zero => cases h
  | succ depth ih =>
    rw [readTerm] at h
    split at h
    · next hl =>
      cases h
      exact map_of_lookahead hl (by decide) (by decide)
    · next hl =>
      obtain ⟨t, ht, hr⟩ := bind_eq_ok_iff.mp h
      cases hr
      rw [map_of_lookahead hl (by decide) (by decide), ih ht]
      rfl
    · next span hl =>
      obtain ⟨v, hv, hr⟩ := bind_eq_ok_iff.mp h
      cases hr
      nth_rewrite 1 [eq_cons_of_lookahead hl (by decide)]
      rw [List.map_cons, spell_eq_name_iff.mpr ⟨rfl, nameAt_eq_ok_iff.mp hv⟩]
      rfl
    · next hl =>
      simp only [bind_eq_ok_iff, operator_eq_ok_iff, expect_eq_ok_iff] at h
      obtain ⟨l, hleft, op, hop, r', hright, close, hclose, hr⟩ := h
      cases hr
      rw [map_of_lookahead hl (by decide) (by decide), ih hleft]
      rcases hop with ⟨hop, hvalue⟩ | ⟨hop, hvalue⟩
      · rw [hop, hvalue, List.map_cons, ih hright, hclose]
        simp [termSymbols, spell]
      · rw [hop, hvalue, List.map_cons, ih hright, hclose]
        simp [termSymbols, spell]
    · cases h
    · cases h

/-- Reading two terms in parentheses, part by part. -/
theorem readTerm_parenthesis {depth : Nat} {span : Span} {input : Input} {l r : Reading Term}
    {op : Reading (Term → Term → Term)} {close : Reading Unit}
    (hl : readTerm file depth input = .ok l) (hop : operator file l.rest = .ok op)
    (hr : readTerm file depth op.rest = .ok r)
    (hclose : expect file .rightParenthesis .closingParenthesis r.rest = .ok close) :
    readTerm file (depth + 1) (⟨.leftParenthesis, span⟩ :: input) =
      .ok ⟨op.value l.value r.value, close.last, close.rest⟩ := by
  rw [readTerm]
  simp [lookahead, hl, hop, hr, hclose, bind, Except.bind]

theorem readTerm_binary {l r : Term} {kind : Lexeme} {make : Term → Term → Term}
    (hkind : kind = .plus ∧ make = .sum ∨ kind = .times ∧ make = .product)
    {depth : Nat} {input : Input} {more : List Symbol}
    (left : ∀ {input more}, input.map (spell file) = termSymbols l ++ more →
      ∃ t, readTerm file depth input = .ok t ∧ t.value = l ∧ t.rest.map (spell file) = more)
    (right : ∀ {input more}, input.map (spell file) = termSymbols r ++ more →
      ∃ t, readTerm file depth input = .ok t ∧ t.value = r ∧ t.rest.map (spell file) = more)
    (h : input.map (spell file) = .mark .leftParenthesis :: (termSymbols l ++
      .mark kind :: (termSymbols r ++ .mark .rightParenthesis :: more))) :
    ∃ t, readTerm file (depth + 1) input = .ok t ∧ t.value = make l r ∧
      t.rest.map (spell file) = more := by
  obtain ⟨span, afterOpen, rfl, hopen⟩ := exists_mark h
  obtain ⟨tl, hl, rfl, hleft⟩ := left hopen
  obtain ⟨spanOp, afterOp, hop, hbehind⟩ := exists_mark hleft
  obtain ⟨tr, hr, rfl, hright⟩ := right hbehind
  obtain ⟨spanClose, afterClose, hclose, hmore⟩ := exists_mark hright
  have hoperator : operator file tl.rest = .ok ⟨make, spanOp, afterOp⟩ := by
    rw [operator_eq_ok_iff, hop]
    rcases hkind with ⟨rfl, rfl⟩ | ⟨rfl, rfl⟩
    · exact Or.inl ⟨rfl, rfl⟩
    · exact Or.inr ⟨rfl, rfl⟩
  have hexpect : expect file .rightParenthesis .closingParenthesis tr.rest =
      .ok ⟨(), spanClose, afterClose⟩ := expect_eq_ok_iff.mpr hclose
  exact ⟨_, readTerm_parenthesis hl hoperator hr hexpect, rfl, hmore⟩

/-- Tokens whose symbols begin with those of a term are read as this term. -/
theorem readTerm_of_map {t : Term} {depth : Nat} {input : Input} {more : List Symbol}
    (h : input.map (spell file) = termSymbols t ++ more)
    (enough : (termSymbols t).length ≤ depth) :
    ∃ r, readTerm file depth input = .ok r ∧ r.value = t ∧ r.rest.map (spell file) = more := by
  induction t generalizing depth input more with
  | zero =>
    obtain ⟨depth, rfl⟩ : ∃ k, depth = k + 1 := ⟨depth - 1, by simp [termSymbols] at enough; omega⟩
    obtain ⟨span, rest, rfl, hrest⟩ := exists_mark h
    exact ⟨⟨.zero, span, rest⟩, rfl, rfl, hrest⟩
  | var v =>
    obtain ⟨depth, rfl⟩ : ∃ k, depth = k + 1 := ⟨depth - 1, by simp [termSymbols] at enough; omega⟩
    obtain ⟨span, rest, rfl, hslice, hrest⟩ := exists_name h
    refine ⟨⟨.var v, span, rest⟩, ?_, rfl, hrest⟩
    rw [readTerm]
    simp [lookahead, nameAt_eq_ok_iff.mpr hslice, bind, Except.bind]
  | succ t ih =>
    simp only [termSymbols, List.length_cons, List.cons_append] at enough h
    obtain ⟨depth, rfl⟩ : ∃ k, depth = k + 1 := ⟨depth - 1, by omega⟩
    obtain ⟨span, rest, rfl, hrest⟩ := exists_mark h
    have hdepth : (termSymbols t).length ≤ depth := by omega
    obtain ⟨r, hr, rfl, hmore⟩ := ih hrest hdepth
    refine ⟨⟨.succ r.value, r.last, r.rest⟩, ?_, rfl, hmore⟩
    rw [readTerm]
    simp [lookahead, hr, bind, Except.bind]
  | sum l r ihl ihr =>
    simp only [termSymbols, List.length_cons, List.length_append, List.cons_append,
      List.append_assoc, List.nil_append] at enough h
    obtain ⟨depth, rfl⟩ : ∃ k, depth = k + 1 := ⟨depth - 1, by omega⟩
    have hleft : (termSymbols l).length ≤ depth := by omega
    have hright : (termSymbols r).length ≤ depth := by omega
    exact readTerm_binary (Or.inl ⟨rfl, rfl⟩) (fun h => ihl h hleft) (fun h => ihr h hright) h
  | product l r ihl ihr =>
    simp only [termSymbols, List.length_cons, List.length_append, List.cons_append,
      List.append_assoc, List.nil_append] at enough h
    obtain ⟨depth, rfl⟩ : ∃ k, depth = k + 1 := ⟨depth - 1, by omega⟩
    have hleft : (termSymbols l).length ≤ depth := by omega
    have hright : (termSymbols r).length ≤ depth := by omega
    exact readTerm_binary (Or.inr ⟨rfl, rfl⟩) (fun h => ihl h hleft) (fun h => ihr h hright) h

theorem map_of_readEquality {start : Span} {input : Input} {r : Reading (Formula × Outline)}
    (h : readEquality file start input = .ok r) :
    input.map (spell file) = formulaSymbols r.value.1 ++ r.rest.map (spell file) := by
  simp only [readEquality, bind_eq_ok_iff, expect_eq_ok_iff] at h
  obtain ⟨l, hleft, eq, heq, r', hright, hr⟩ := h
  cases hr
  rw [map_of_readTerm hleft, heq, List.map_cons, map_of_readTerm hright]
  simp [formulaSymbols, spell]

theorem map_of_readQuantified {input : Input} {r : Reading Variable}
    (h : readQuantified file input = .ok r) :
    input.map (spell file) = .name r.value.chars :: .mark .colon :: r.rest.map (spell file) := by
  obtain ⟨span, rfl, hslice⟩ := readQuantified_eq_ok_iff.mp h
  simp [spell, hslice]

/-- What is read from the front are the symbols of the formula. -/
theorem map_of_readFormula {depth : Nat} {input : Input} {r : Reading (Formula × Outline)}
    (h : readFormula file depth input = .ok r) :
    input.map (spell file) = formulaSymbols r.value.1 ++ r.rest.map (spell file) := by
  induction depth generalizing input r with
  | zero => cases h
  | succ depth ih =>
    rw [readFormula] at h
    split at h
    · next hl =>
      simp only [bind_eq_ok_iff, connective_eq_ok_iff, expect_eq_ok_iff] at h
      obtain ⟨l, hleft, op, hop, r', hright, close, hclose, hr⟩ := h
      cases hr
      have hname : connectiveLexeme op.value ≠ .name := by cases op.value <;> decide
      rw [map_of_lookahead hl (by decide) (by decide), ih hleft, hop, List.map_cons, ih hright,
        hclose]
      simp [formulaSymbols, spell, hname]
    · next hl =>
      obtain ⟨f, hf, hr⟩ := bind_eq_ok_iff.mp h
      cases hr
      rw [map_of_lookahead hl (by decide) (by decide), ih hf]
      rfl
    · next hl =>
      simp only [bind_eq_ok_iff] at h
      obtain ⟨v, hv, f, hf, hr⟩ := h
      cases hr
      rw [map_of_lookahead hl (by decide) (by decide), map_of_readQuantified hv, ih hf]
      rfl
    · next hl =>
      simp only [bind_eq_ok_iff] at h
      obtain ⟨v, hv, f, hf, hr⟩ := h
      cases hr
      rw [map_of_lookahead hl (by decide) (by decide), map_of_readQuantified hv, ih hf]
      rfl
    · exact map_of_readEquality h

theorem lookahead_of_map_term {t : Term} {input : Input} {more : List Symbol}
    (h : input.map (spell file) = termSymbols t ++ more) :
    (lookahead file input).kind ∈
      [Lexeme.zero, Lexeme.successor, Lexeme.leftParenthesis, Lexeme.name] := by
  cases t with
  | var v =>
    obtain ⟨span, rest, rfl, -⟩ := exists_name h
    simp [lookahead]
  | zero | succ | sum | product =>
    obtain ⟨span, rest, rfl, -⟩ := exists_mark h
    simp [lookahead]

theorem readFormula_eq_readEquality {depth : Nat} {input : Input}
    (h : (lookahead file input).kind ∈
      [Lexeme.zero, Lexeme.successor, Lexeme.leftParenthesis, Lexeme.name]) :
    readFormula file (depth + 1) input =
      readEquality file (lookahead file input).span input := by
  rw [readFormula]
  split
  all_goals next hl => simp_all

theorem readEquality_of_map {l r : Term} {start : Span} {input : Input} {more : List Symbol}
    (h : input.map (spell file) = formulaSymbols (.equality l r) ++ more) :
    ∃ e, readEquality file start input = .ok e ∧ e.value.1 = .equality l r ∧
      e.rest.map (spell file) = more := by
  simp only [formulaSymbols, List.append_assoc, List.cons_append] at h
  have hinput := congrArg List.length h
  simp only [List.length_map, List.length_append, List.length_cons] at hinput
  have hleft : (termSymbols l).length ≤ input.length := by omega
  obtain ⟨tl, htl, rfl, hbehind⟩ := readTerm_of_map h hleft
  obtain ⟨span, rest, hequals, hrest⟩ := exists_mark hbehind
  have hafter := congrArg List.length hrest
  simp only [List.length_map, List.length_append] at hafter
  have hright : (termSymbols r).length ≤ rest.length := by omega
  obtain ⟨tr, htr, rfl, hmore⟩ := readTerm_of_map hrest hright
  have hexpect : expect file .equals .equals tl.rest = .ok ⟨(), span, rest⟩ :=
    expect_eq_ok_iff.mpr hequals
  refine ⟨⟨(.equality tl.value tr.value, .leaf (start.join tr.last)), tr.last, tr.rest⟩, ?_, rfl,
    hmore⟩
  simp [readEquality, htl, hexpect, htr, bind, Except.bind]

/-- Reading two formulas in brackets, part by part. -/
theorem readFormula_bracket {depth : Nat} {span : Span} {input : Input}
    {l r : Reading (Formula × Outline)} {op : Reading Connective} {close : Reading Unit}
    (hl : readFormula file depth input = .ok l) (hop : connective file l.rest = .ok op)
    (hr : readFormula file depth op.rest = .ok r)
    (hclose : expect file .rightBracket .closingBracket r.rest = .ok close) :
    readFormula file (depth + 1) (⟨.leftBracket, span⟩ :: input) =
      .ok ⟨(.binary op.value l.value.1 r.value.1,
        .binary (span.join close.last) l.value.2 r.value.2), close.last, close.rest⟩ := by
  rw [readFormula]
  simp [lookahead, hl, hop, hr, hclose, bind, Except.bind]

/-- Reading a quantified formula, part by part. -/
theorem readFormula_quantifier {q : Quantifier} {depth : Nat} {span : Span} {input : Input}
    {v : Reading Variable} {r : Reading (Formula × Outline)}
    (hv : readQuantified file input = .ok v) (hr : readFormula file depth v.rest = .ok r) :
    readFormula file (depth + 1) (⟨quantifierLexeme q, span⟩ :: input) =
      .ok ⟨(.quantified q v.value r.value.1, .unary (span.join r.last) r.value.2), r.last,
        r.rest⟩ := by
  rw [readFormula]
  cases q with
  | forAll => simp [quantifierLexeme, lookahead, hv, hr, bind, Except.bind, Formula.forAll]
  | thereIs => simp [quantifierLexeme, lookahead, hv, hr, bind, Except.bind, Formula.thereIs]

/-- Tokens whose symbols begin with those of a formula are read as this formula. -/
theorem readFormula_of_map {f : Formula} {depth : Nat} {input : Input} {more : List Symbol}
    (h : input.map (spell file) = formulaSymbols f ++ more)
    (enough : (formulaSymbols f).length ≤ depth) :
    ∃ r, readFormula file depth input = .ok r ∧ r.value.1 = f ∧
      r.rest.map (spell file) = more := by
  induction f generalizing depth input more with
  | equality l r =>
    have hsome : 0 < depth := by
      simp only [formulaSymbols, List.length_append, List.length_cons] at enough
      omega
    obtain ⟨depth, rfl⟩ : ∃ k, depth = k + 1 := ⟨depth - 1, by omega⟩
    have hterm : input.map (spell file) =
        termSymbols l ++ (.mark .equals :: termSymbols r ++ more) := by
      simpa [formulaSymbols] using h
    rw [readFormula_eq_readEquality (lookahead_of_map_term hterm)]
    exact readEquality_of_map h
  | neg f ih =>
    simp only [formulaSymbols, List.length_cons, List.cons_append] at enough h
    obtain ⟨depth, rfl⟩ : ∃ k, depth = k + 1 := ⟨depth - 1, by omega⟩
    have hdepth : (formulaSymbols f).length ≤ depth := by omega
    obtain ⟨span, rest, rfl, hrest⟩ := exists_mark h
    obtain ⟨r, hr, rfl, hmore⟩ := ih hrest hdepth
    refine ⟨⟨(.neg r.value.1, .unary (span.join r.last) r.value.2), r.last, r.rest⟩, ?_, rfl,
      hmore⟩
    rw [readFormula]
    simp [lookahead, hr, bind, Except.bind]
  | binary op l r ihl ihr =>
    simp only [formulaSymbols, List.length_cons, List.length_append, List.cons_append,
      List.append_assoc, List.nil_append] at enough h
    obtain ⟨depth, rfl⟩ : ∃ k, depth = k + 1 := ⟨depth - 1, by omega⟩
    have hleft : (formulaSymbols l).length ≤ depth := by omega
    have hright : (formulaSymbols r).length ≤ depth := by omega
    obtain ⟨span, afterOpen, rfl, hopen⟩ := exists_mark h
    obtain ⟨fl, hl, rfl, hbehind⟩ := ihl hopen hleft
    obtain ⟨spanOp, afterOp, hop, hafter⟩ := exists_mark hbehind
    obtain ⟨fr, hr, rfl, hlast⟩ := ihr hafter hright
    obtain ⟨spanClose, afterClose, hclose, hmore⟩ := exists_mark hlast
    have hconnective : connective file fl.rest = .ok ⟨op, spanOp, afterOp⟩ :=
      connective_eq_ok_iff.mpr hop
    have hexpect : expect file .rightBracket .closingBracket fr.rest =
        .ok ⟨(), spanClose, afterClose⟩ := expect_eq_ok_iff.mpr hclose
    exact ⟨_, readFormula_bracket hl hconnective hr hexpect, rfl, hmore⟩
  | quantified q v f ih =>
    simp only [formulaSymbols, List.length_cons, List.cons_append] at enough h
    obtain ⟨depth, rfl⟩ : ∃ k, depth = k + 1 := ⟨depth - 1, by omega⟩
    have hdepth : (formulaSymbols f).length ≤ depth := by omega
    obtain ⟨span, afterMark, rfl, hmark⟩ := exists_mark h
    obtain ⟨spanName, afterName, rfl, hslice, hname⟩ := exists_name hmark
    obtain ⟨spanColon, afterColon, rfl, hcolon⟩ := exists_mark hname
    obtain ⟨r, hr, rfl, hmore⟩ := ih hcolon hdepth
    have hv : readQuantified file (⟨.name, spanName⟩ :: ⟨.colon, spanColon⟩ :: afterColon) =
        .ok ⟨v, spanColon, afterColon⟩ := readQuantified_eq_ok_iff.mpr ⟨spanName, rfl, hslice⟩
    exact ⟨_, readFormula_quantifier hv hr, rfl, hmore⟩

/-- A reader that takes exactly the symbols of what it reads. The tokens decide
on a value up to `key`. -/
structure Faithful (file : SourceFile) {α β : Type} (symbols : β → List Symbol) (key : α → β)
    (read : Nat → Input → Except SyntaxError (Reading α)) : Prop where
  proper : ∀ x, ∀ s ∈ symbols x, s.Proper
  sound : ∀ {depth input r}, read depth input = .ok r →
    input.map (spell file) = symbols (key r.value) ++ r.rest.map (spell file)
  accepts : ∀ {x depth input more}, input.map (spell file) = symbols x ++ more →
    (symbols x).length ≤ depth →
    ∃ r, read depth input = .ok r ∧ key r.value = x ∧ r.rest.map (spell file) = more

theorem faithful_readTerm : Faithful file termSymbols id (readTerm file) :=
  ⟨proper_termSymbols, map_of_readTerm, readTerm_of_map⟩

theorem faithful_readFormula : Faithful file formulaSymbols Prod.fst (readFormula file) :=
  ⟨proper_formulaSymbols, map_of_readFormula, readFormula_of_map⟩

theorem complete_eq_ok_iff {α : Type} {c : Complaint} {r : Reading α} {a : α} :
    complete file c r = .ok a ↔ (lookahead file r.rest).kind = .endOfInput ∧ r.value = a := by
  unfold complete
  split
  · next h => simp [h]
  · next h => simp [h]

theorem not_proper_endOfInput : ¬ (Symbol.mark .endOfInput).Proper := by
  rintro ⟨c, hc⟩
  obtain ⟨-, -, -, -, -, -, hend⟩ := marks_spec hc
  exact hend rfl

/-- Symbols at whose end the input has ended are all the symbols. -/
theorem eq_of_lookahead_end {input rest : Input} {front symbols : List Symbol}
    (hfront : input.map (spell file) = front ++ rest.map (spell file))
    (proper : ∀ s ∈ front, s.Proper) (hend : (lookahead file rest).kind = .endOfInput)
    (hall : input.map (spell file) = symbols ++ [.mark .endOfInput])
    (hsymbols : .mark .endOfInput ∉ symbols) : front = symbols := by
  have hproper : .mark .endOfInput ∉ front := fun hmem => not_proper_endOfInput (proper _ hmem)
  rw [hall] at hfront
  cases rest with
  | nil =>
    rw [List.map_nil, List.append_nil] at hfront
    rw [← hfront] at hproper
    exact absurd (List.mem_append_right _ (List.mem_singleton_self _)) hproper
  | cons t rest =>
    have ht : spell file t = .mark .endOfInput := spell_eq_mark_iff.mpr ⟨hend, by decide⟩
    rw [List.map_cons, ht] at hfront
    exact ((List.append_cons_inj_of_notMem hsymbols List.not_mem_nil).mp hfront).1.symm

/-- A file is read as something exactly if it spells its symbols. -/
theorem Faithful.whole_iff {α β : Type} {symbols : β → List Symbol} {key : α → β}
    {read : Nat → Input → Except SyntaxError (Reading α)} (h : Faithful file symbols key read)
    (c : Complaint) (x : β) :
    (∃ a, (do
        let input ← tokens file
        let r ← read input.length input
        complete file c r) = .ok a ∧ key a = x) ↔
      withoutBlanks file.contents = (symbols x).flatMap Symbol.chars ∧
        PrimesAttached file.contents := by
  constructor
  · rintro ⟨a, ha, rfl⟩
    simp only [bind_eq_ok_iff, complete_eq_ok_iff, tokens_eq_ok_iff] at ha
    obtain ⟨input, ⟨ts, hcut, rfl⟩, r, hr, hend, rfl⟩ := ha
    obtain ⟨all, hall, hnotMem, htext, hattached⟩ := hcut.spells rfl
    have heq := eq_of_lookahead_end (h.sound hr) (h.proper _) hend hall hnotMem
    rw [heq]
    exact ⟨htext, hattached⟩
  · rintro ⟨htext, hattached⟩
    obtain ⟨ts, hcut, hspell⟩ := cut_of_spells (h.proper x) htext hattached List.drop_zero
    have hlength := congrArg List.length hspell
    simp only [List.length_map, List.length_append] at hlength
    have henough : (symbols x).length ≤ (visible ts).length := by omega
    obtain ⟨r, hr, hkey, hrest⟩ := h.accepts hspell henough
    obtain ⟨span, rest, hend, -⟩ := exists_mark hrest
    refine ⟨r.value, ?_, hkey⟩
    simp only [bind_eq_ok_iff, complete_eq_ok_iff, tokens_eq_ok_iff]
    refine ⟨visible ts, ⟨ts, hcut, rfl⟩, r, hr, ?_, rfl⟩
    rw [hend]
    rfl

theorem term_eq_ok_iff {t : Term} :
    term file = .ok t ↔
      withoutBlanks file.contents = t.chars ∧ PrimesAttached file.contents := by
  rw [← chars_termSymbols, ← faithful_readTerm.whole_iff .textAfterTerm t]
  simp [term]

theorem exists_outlinedFormula_eq_ok_iff {f : Formula} :
    (∃ outline, outlinedFormula file = .ok (f, outline)) ↔
      withoutBlanks file.contents = f.chars ∧ PrimesAttached file.contents := by
  rw [← chars_formulaSymbols, ← faithful_readFormula.whole_iff .textAfterFormula f]
  constructor
  · rintro ⟨outline, h⟩
    exact ⟨(f, outline), h, rfl⟩
  · rintro ⟨⟨f, outline⟩, h, rfl⟩
    exact ⟨outline, h⟩

end Grammar

open Grammar

theorem Term.parse_eq_ok_iff {s : String} {t : Term} :
    Term.parse s = .ok t ↔ withoutBlanks s.toList = t.chars ∧ PrimesAttached s.toList :=
  term_eq_ok_iff

namespace Formula

theorem read_eq_ok_iff {file : SourceFile} {f : Formula} {outline : Outline} :
    Formula.read file = .ok (f, outline) ↔
      f.checkWellFormed = .ok () ∧ outlinedFormula file = .ok (f, outline) := by
  unfold Formula.read
  split
  · next h => simp [h]
  · next g outline' h =>
    split
    · next hg =>
      simp only [reduceCtorEq, h, false_iff, Except.ok.injEq, Prod.mk.injEq, not_and]
      rintro hf rfl
      rw [hg] at hf
      cases hf
    · next hg =>
      simp only [h, Except.ok.injEq, Prod.mk.injEq, iff_and_self, and_imp]
      rintro rfl -
      exact hg

theorem parse_eq_ok_iff {s : String} {f : Formula} :
    Formula.parse s = .ok f ↔
      f.checkWellFormed = .ok () ∧ withoutBlanks s.toList = f.chars ∧ PrimesAttached s.toList := by
  have hfile : (∃ outline, outlinedFormula (.ofString "formula" s) = .ok (f, outline)) ↔
      withoutBlanks s.toList = f.chars ∧ PrimesAttached s.toList :=
    exists_outlinedFormula_eq_ok_iff
  rw [Formula.parse, map_eq_ok_iff, ← hfile]
  constructor
  · rintro ⟨⟨g, outline⟩, hread, rfl⟩
    obtain ⟨hformed, houtline⟩ := read_eq_ok_iff.mp hread
    exact ⟨hformed, outline, houtline⟩
  · rintro ⟨hformed, outline, houtline⟩
    exact ⟨(f, outline), read_eq_ok_iff.mpr ⟨hformed, houtline⟩, rfl⟩

theorem text_ne_empty (f : Formula) : f.text ≠ "" := by
  intro h
  have hchars : f.chars = [] := by
    rw [← String.toList_ofList (l := f.chars)]
    exact congrArg String.toList h
  cases f with
  | equality l r => simp [chars] at hchars
  | neg f => cases hchars
  | binary op l r => cases hchars
  | quantified q v f => cases hchars

/-- A printed formula is read as itself, provided it is well quantified. -/
theorem parse_text_eq_ok_iff {f : Formula} :
    Formula.parse f.text = .ok f ↔ f.checkWellFormed = .ok () := by
  have hblank : ∀ c ∈ f.chars, isBlank c = false := by
    rw [← chars_formulaSymbols]
    exact not_isBlank_of_proper (proper_formulaSymbols f)
  rw [parse_eq_ok_iff, text, String.toList_ofList]
  exact and_iff_left ⟨withoutBlanks_eq_self hblank, primesAttached_of_not_blank hblank⟩

/-- A text is read as a formula exactly if it is the text of the formula with
spaces and tabs added, none of them in front of an apostrophe, and the formula
is well quantified; it is read as a term exactly if it is the text of the term
with spaces and tabs added in the same way. -/
theorem reading_inverts_printing (s : String) :
    (∀ f : Formula, Formula.parse s = .ok f ↔ f.checkWellFormed = .ok () ∧
      withoutBlanks s.toList = f.text.toList ∧ PrimesAttached s.toList) ∧
    (∀ t : Term, Term.parse s = .ok t ↔
      withoutBlanks s.toList = t.text.toList ∧ PrimesAttached s.toList) ∧
    ∀ f : Formula, Formula.parse f.text = .ok f ↔ f.checkWellFormed = .ok () := by
  refine ⟨fun f => ?_, fun t => ?_, fun f => parse_text_eq_ok_iff⟩
  · rw [parse_eq_ok_iff, text, String.toList_ofList]
  · rw [Term.parse_eq_ok_iff, Term.text, String.toList_ofList]

end Formula

end Typographical
