import Typographical.Proofs.Languages

/-!
# The first token that does not fit

What is read from the front of a list of tokens is a word of some language: the
symbols of a term, those of a formula, or one symbol of a certain kind. If there
is no such word at the front, a complaint is made about one token. Up to this
token the tokens begin a word, and with it they begin none, whatever may follow.

Reading one word after another answers the question for the two languages
together, because a word that has been read could not have been read in any other
way. All readers are built like this, so that nothing else is said about them.
-/

namespace Typographical

namespace Grammar

variable {file : SourceFile} {α β : Type} {L M : Language Symbol} {S : Set Symbol}
  {input rest : Input} {t : Token Lexeme}

/-- Tokens that spell symbols, and then the end of input. -/
def Ended (file : SourceFile) (input : Input) : Prop :=
  ∃ front span, input = front ++ [⟨.endOfInput, span⟩] ∧ ∀ t ∈ front, (spell file t).Proper

/-- A token at which the beginning of a word ceases to be one. The tokens before
it are not a word themselves, and no word that something else follows goes on
with it. -/
structure BreaksOff (file : SourceFile) (L : Language Symbol) (front : Input)
    (t : Token Lexeme) : Prop where
  begun : ∃ more, more ≠ [] ∧ front.map (spell file) ++ more ∈ L
  broken : ∀ w ∈ L, ∀ more, ¬ (front ++ [t]).map (spell file) <+: w ++ more

/-- The outcome of a reader says whether the tokens begin with a word. -/
def Answers (file : SourceFile) (L : Language Symbol) (input : Input) :
    Except SyntaxError (Reading α) → Prop
  | .ok r => ∃ front, input = front ++ r.rest ∧ front.map (spell file) ∈ L ∧ Ended file r.rest
  | .error e => ∃ front t rest, input = front ++ t :: rest ∧ e.file = file ∧ e.span = t.span ∧
      BreaksOff file L front t

theorem Ended.ne_nil (h : Ended file input) : input ≠ [] := by
  obtain ⟨front, span, rfl, -⟩ := h
  simp

theorem Ended.tail (h : Ended file (t :: rest)) (ht : t.kind ≠ .endOfInput) :
    (spell file t).Proper ∧ Ended file rest := by
  obtain ⟨front, span, hfront, hproper⟩ := h
  cases front with
  | nil =>
    cases hfront
    exact absurd rfl ht
  | cons t' front =>
    cases hfront
    exact ⟨hproper t (List.mem_cons_self ..), front, span, rfl,
      fun t' ht' => hproper t' (List.mem_cons_of_mem _ ht')⟩

theorem Ended.eq_nil_of_end (h : Ended file (t :: rest)) (ht : t.kind = .endOfInput) :
    rest = [] := by
  obtain ⟨front, span, hfront, hproper⟩ := h
  cases front with
  | nil => exact (List.cons.inj hfront).2
  | cons t' front =>
    cases hfront
    have hend := hproper t (List.mem_cons_self ..)
    rw [spell_eq_mark_iff.mpr ⟨ht, by decide⟩] at hend
    exact absurd hend not_proper_endOfInput

/-- A name among the tokens is the name of a variable. -/
theorem Ended.nameAt_eq {span : Span} (h : Ended file (⟨.name, span⟩ :: rest)) :
    ∃ v, nameAt file span = .ok v ∧ spell file ⟨.name, span⟩ = .name v.chars := by
  obtain ⟨⟨v, hv⟩, -⟩ := h.tail (by simp)
  exact ⟨v, nameAt_eq_ok_iff.mpr hv, spell_eq_name_iff.mpr ⟨rfl, hv⟩⟩

/-- One word, and then another one. The first word of any continuation is the one that was
read. -/
theorem Answers.bind {x : Except SyntaxError (Reading α)}
    {f : Reading α → Except SyntaxError (Reading β)} (hx : Answers file L input x)
    (free : PrefixFree L) {v : List Symbol} (hv : v ∈ M)
    (hf : ∀ r, x = .ok r → Ended file r.rest → r.rest.length ≤ input.length →
      Answers file M r.rest (f r)) :
    Answers file (L * M) input (x >>= f) := by
  cases x with
  | error e =>
    obtain ⟨front, t, rest, hinput, hfile, hspan, ⟨more, hmore, hword⟩, hbroken⟩ := hx
    refine ⟨front, t, rest, hinput, hfile, hspan, ⟨more ++ v, by simp [hmore], ?_⟩, ?_⟩
    · exact ⟨_, hword, v, hv, List.append_assoc ..⟩
    · rintro _ ⟨u, hu, v', -, rfl⟩ behind hbegins
      rw [List.append_assoc] at hbegins
      exact hbroken u hu _ hbegins
  | ok r =>
    obtain ⟨front, hinput, hword, hended⟩ := hx
    have hshort : r.rest.length ≤ input.length := by simp [hinput]
    have hnext := hf r rfl hended hshort
    change Answers file (L * M) input (f r)
    cases hfr : f r with
    | error e =>
      rw [hfr] at hnext
      obtain ⟨front', t, rest, hrest, hfile, hspan, ⟨more, hmore, hword'⟩, hbroken⟩ := hnext
      refine ⟨front ++ front', t, rest, by rw [hinput, hrest, List.append_assoc], hfile, hspan,
        ⟨more, hmore, ?_⟩, ?_⟩
      · rw [List.map_append, List.append_assoc]
        exact ⟨_, hword, _, hword', rfl⟩
      · rintro _ ⟨u, hu, v', hv', rfl⟩ behind ⟨tail, htail⟩
        simp only [List.map_append, List.append_assoc] at htail
        have hsame := free _ hword _ hu _ _ htail
        rw [hsame, List.append_cancel_left_eq] at htail
        refine hbroken v' hv' behind ⟨tail, ?_⟩
        rw [← htail, List.map_append, List.append_assoc]
    | ok r' =>
      rw [hfr] at hnext
      obtain ⟨front', hrest, hword', hended'⟩ := hnext
      refine ⟨front ++ front', by rw [hinput, hrest, List.append_assoc], ?_, hended'⟩
      rw [List.map_append]
      exact ⟨_, hword, _, hword', rfl⟩

/-- What a reader makes of the word it has read does not matter. -/
theorem Answers.map {x : Except SyntaxError (Reading α)} {f : Reading α → Reading β}
    (hx : Answers file L input x) (hf : ∀ r, (f r).rest = r.rest) :
    Answers file L input (x >>= fun r => .ok (f r)) := by
  cases x with
  | error e => exact hx
  | ok r =>
    change ∃ front, input = front ++ (f r).rest ∧ _ ∧ Ended file (f r).rest
    rw [hf]
    exact hx

/-- A first symbol, and then what words go on with after it. -/
theorem Answers.cons {x : Except SyntaxError (Reading α)} (hnil : [] ∉ L)
    (hL : ∀ w, spell file t :: w ∈ L ↔ w ∈ M) (hx : Answers file M input x) :
    Answers file L (t :: input) x := by
  cases x with
  | ok r =>
    obtain ⟨front, hinput, hword, hended⟩ := hx
    exact ⟨t :: front, by rw [hinput, List.cons_append], (hL _).mpr hword, hended⟩
  | error e =>
    obtain ⟨front, t', rest, hinput, hfile, hspan, ⟨more, hmore, hword⟩, hbroken⟩ := hx
    refine ⟨t :: front, t', rest, by rw [hinput, List.cons_append], hfile, hspan,
      ⟨more, hmore, (hL _).mpr hword⟩, ?_⟩
    rintro (_ | ⟨s, w⟩) hw behind ⟨tail, htail⟩
    · exact hnil hw
    · obtain ⟨rfl, hbehind⟩ := List.cons.inj htail
      exact hbroken w ((hL w).mp hw) behind ⟨tail, hbehind⟩

/-- It is enough to look at some words if these are all with the first symbol at
hand. -/
theorem Answers.extend {x : Except SyntaxError (Reading α)} (hnil : [] ∉ L)
    (hsub : ∀ w ∈ M, w ∈ L) (hL : ∀ w, spell file t :: w ∈ L → spell file t :: w ∈ M)
    (hx : Answers file M (t :: input) x) : Answers file L (t :: input) x := by
  cases x with
  | ok r =>
    obtain ⟨front, hinput, hword, hended⟩ := hx
    exact ⟨front, hinput, hsub _ hword, hended⟩
  | error e =>
    obtain ⟨front, t', rest, hinput, hfile, hspan, ⟨more, hmore, hword⟩, hbroken⟩ := hx
    refine ⟨front, t', rest, hinput, hfile, hspan, ⟨more, hmore, hsub _ hword⟩, ?_⟩
    have hfirst : ∃ more, (front ++ [t']).map (spell file) = spell file t :: more := by
      cases front with
      | nil =>
        cases hinput
        exact ⟨[], rfl⟩
      | cons t front =>
        cases hinput
        exact ⟨_, rfl⟩
    rintro (_ | ⟨s, w⟩) hw behind hbegins
    · exact hnil hw
    · obtain ⟨rest', hrest'⟩ := hfirst
      have hs : spell file t = s := by
        obtain ⟨tail, htail⟩ := hbegins
        rw [hrest'] at htail
        exact (List.cons.inj htail).1
      subst hs
      exact hbroken _ (hL w hw) behind hbegins

/-- A first symbol that no word begins with. -/
theorem Answers.refuse {c : Complaint} {v : List Symbol} (hv : v ∈ L) (hnil : [] ∉ L)
    (hL : ∀ w, spell file t :: w ∉ L) :
    Answers (α := α) file L (t :: input) (.error (complain file (t :: input) c)) := by
  refine ⟨[], t, input, rfl, rfl, rfl, ⟨v, ?_, hv⟩, ?_⟩
  · rintro rfl
    exact hnil hv
  · rintro (_ | ⟨s, w⟩) hw behind ⟨tail, htail⟩
    · exact hnil hw
    · obtain ⟨rfl, -⟩ := List.cons.inj htail
      exact hL w hw

/-- A reader of one symbol looks at the next token. -/
theorem answers_single {x : Except SyntaxError (Reading α)} {s : Symbol} (hs : s ∈ S)
    (ok : ∀ r, x = .ok r → spell file t ∈ S ∧ r.rest = input ∧ Ended file input)
    (error : ∀ e, x = .error e → spell file t ∉ S ∧ ∃ c, e = complain file (t :: input) c) :
    Answers file (single S) (t :: input) x := by
  cases x with
  | ok r =>
    obtain ⟨hS, hrest, hended⟩ := ok r rfl
    exact ⟨[t], by rw [hrest]; rfl, ⟨_, hS, rfl⟩, hrest ▸ hended⟩
  | error e =>
    obtain ⟨hS, c, rfl⟩ := error e rfl
    exact .refuse ⟨s, hs, rfl⟩ (nil_notMem_single S) fun w hw => hS (cons_mem_single_iff.mp hw).1

theorem answers_expect {kind : Lexeme} {s : Symbol} (c : Complaint) (hs : s ∈ S)
    (hkind : kind ≠ .endOfInput) (sound : ∀ t, spell file t ∈ S → t.kind = kind)
    (complete : ∀ t, t.kind = kind → (spell file t).Proper → spell file t ∈ S)
    (hinput : Ended file input) : Answers file (single S) input (expect file kind c input) := by
  cases input with
  | nil => exact absurd rfl hinput.ne_nil
  | cons t rest =>
    refine answers_single hs (fun r hr => ?_) (fun e he => ?_)
    · cases expect_eq_ok_iff.mp hr
      obtain ⟨hproper, hrest⟩ := hinput.tail hkind
      exact ⟨complete _ rfl hproper, rfl, hrest⟩
    · rw [expect] at he
      split at he
      · cases he
      · next hne => exact ⟨fun hmem => hne (sound t hmem), c, (Except.error.inj he).symm⟩

theorem answers_expect_mark {kind : Lexeme} (c : Complaint) (hkind : kind ≠ .endOfInput)
    (hname : kind ≠ .name) (hinput : Ended file input) :
    Answers file (single {.mark kind}) input (expect file kind c input) :=
  answers_expect c rfl hkind (fun _ h => (spell_eq_mark_iff.mp h).1)
    (fun _ h _ => spell_eq_mark_iff.mpr ⟨h, hname⟩) hinput

theorem answers_expect_name (c : Complaint) (hinput : Ended file input) :
    Answers file (single names) input (expect file .name c input) := by
  refine answers_expect (s := .name ['a']) c ⟨⟨'a', 0, rfl⟩, rfl⟩ (by decide) ?_ ?_ hinput
  · rintro t ⟨v, hv⟩
    exact (spell_eq_name_iff.mp hv).1
  · rintro t ht hproper
    rw [spell_eq_name_iff.mpr ⟨ht, rfl⟩] at hproper ⊢
    obtain ⟨v, hv⟩ := hproper
    exact ⟨v, by rw [hv]⟩

theorem answers_operator (hinput : Ended file input) :
    Answers file (single operators) input (operator file input) := by
  cases input with
  | nil => exact absurd rfl hinput.ne_nil
  | cons t rest =>
    refine answers_single (s := .mark .plus) (Or.inl rfl) (fun r hr => ?_) (fun e he => ?_)
    · rcases operator_eq_ok_iff.mp hr with ⟨hcons, -⟩ | ⟨hcons, -⟩
      · cases hcons
        exact ⟨Or.inl rfl, rfl, (hinput.tail (by simp)).2⟩
      · cases hcons
        exact ⟨Or.inr rfl, rfl, (hinput.tail (by simp)).2⟩
    · obtain ⟨kind, span⟩ := t
      unfold operator at he
      split at he
      · cases he
      · cases he
      · next hplus htimes =>
        refine ⟨?_, .operator, (Except.error.inj he).symm⟩
        rintro (hmem | hmem)
        · have hkind : kind = .plus := (spell_eq_mark_iff.mp hmem).1
          subst hkind
          exact hplus span rfl
        · have hkind : kind = .times := (spell_eq_mark_iff.mp hmem).1
          subst hkind
          exact htimes span rfl

theorem answers_connective (hinput : Ended file input) :
    Answers file (single connectives) input (connective file input) := by
  cases input with
  | nil => exact absurd rfl hinput.ne_nil
  | cons t rest =>
    refine answers_single (s := .mark .and) ⟨.and, rfl⟩ (fun r hr => ?_) (fun e he => ?_)
    · cases connective_eq_ok_iff.mp hr
      have hname : connectiveLexeme r.value ≠ .name := by cases r.value <;> decide
      have hend : connectiveLexeme r.value ≠ .endOfInput := by cases r.value <;> decide
      exact ⟨⟨r.value, spell_eq_mark_iff.mpr ⟨rfl, hname⟩⟩, rfl, (hinput.tail hend).2⟩
    · obtain ⟨kind, span⟩ := t
      unfold connective at he
      split at he
      · cases he
      · cases he
      · cases he
      · next hand hor himplies =>
        refine ⟨?_, .connective, (Except.error.inj he).symm⟩
        rintro ⟨op, hmem⟩
        have hkind : kind = connectiveLexeme op := (spell_eq_mark_iff.mp hmem).1
        subst hkind
        cases op with
        | and => exact hand span rfl
        | or => exact hor span rfl
        | implies => exact himplies span rfl

theorem mark_mem_single (kind : Lexeme) : [.mark kind] ∈ single {.mark kind} := ⟨_, rfl, rfl⟩

theorem kind_of_mem_beginnings (h : spell file t ∈ beginnings) :
    t.kind ∈ [Lexeme.zero, .successor, .leftParenthesis, .name] := by
  rcases h with (hmark | hmark | hmark) | ⟨v, hname⟩
  · simp [(spell_eq_mark_iff.mp hmark).1]
  · simp [(spell_eq_mark_iff.mp hmark).1]
  · simp [(spell_eq_mark_iff.mp hmark).1]
  · simp [(spell_eq_name_iff.mp hname).1]

/-- A term is missing where none can begin. -/
theorem answers_no_term {c : Complaint}
    (h : t.kind ∉ [Lexeme.zero, .successor, .leftParenthesis, .name]) :
    Answers (α := α) file terms (t :: input) (.error (complain file (t :: input) c)) :=
  .refuse zero_mem_terms nil_notMem_terms
    (cons_notMem_terms fun hmem => h (kind_of_mem_beginnings hmem))

theorem answers_readTerm {depth : Nat} (hinput : Ended file input)
    (enough : input.length ≤ depth) : Answers file terms input (readTerm file depth input) := by
  induction depth generalizing input with
  | zero => exact absurd (List.length_eq_zero_iff.mp (Nat.le_zero.mp enough)) hinput.ne_nil
  | succ depth ih =>
    cases input with
    | nil => exact absurd rfl hinput.ne_nil
    | cons t rest =>
      have hshort : rest.length ≤ depth := by simpa using enough
      rw [readTerm]
      split
      · next hl =>
        cases hl
        exact ⟨[_], rfl, zero_mem_terms, (hinput.tail (by simp)).2⟩
      · next hl =>
        cases hl
        have hrest := (hinput.tail (by simp)).2
        exact .cons nil_notMem_terms (fun _ => successor_cons_mem_terms)
          (.map (ih hrest hshort) fun _ => rfl)
      · next hl =>
        cases hl
        obtain ⟨v, hv, hspell⟩ := hinput.nameAt_eq
        rw [hv]
        refine ⟨[_], rfl, ?_, (hinput.tail (by simp)).2⟩
        rw [List.map_singleton, hspell]
        exact name_mem_terms v
      · next hl =>
        cases hl
        have hrest := (hinput.tail (by simp)).2
        have hclose : termSymbols .zero ++ [.mark .rightParenthesis] ∈
            terms * single {.mark .rightParenthesis} :=
          ⟨_, zero_mem_terms, _, mark_mem_single _, rfl⟩
        have hbehind : .mark .plus :: (termSymbols .zero ++ [.mark .rightParenthesis]) ∈
            single operators * (terms * single {.mark .rightParenthesis}) :=
          ⟨_, ⟨_, Or.inl rfl, rfl⟩, _, hclose, rfl⟩
        refine .cons nil_notMem_terms (fun _ => parenthesis_cons_mem_terms) ?_
        refine (ih hrest hshort).bind prefixFree_terms hbehind fun l _ hl hlshort => ?_
        refine (answers_operator hl).bind (prefixFree_single _) hclose fun op _ hop hopshort => ?_
        have hright := ih hop (Nat.le_trans hopshort (Nat.le_trans hlshort hshort))
        refine hright.bind prefixFree_terms (mark_mem_single _) fun r _ hr _ => ?_
        exact (answers_expect_mark _ (by decide) (by decide) hr).map fun _ => rfl
      · next hl =>
        cases hl
        exact answers_no_term (by simp)
      · next hzero hsucc hname hparenthesis _ =>
        obtain ⟨kind, span⟩ := t
        refine answers_no_term fun hkind => ?_
        simp only [List.mem_cons, List.not_mem_nil, or_false] at hkind
        rcases hkind with rfl | rfl | rfl | rfl
        · exact hzero span rfl
        · exact hsucc span rfl
        · exact hparenthesis span rfl
        · exact hname span rfl

theorem answers_readEquality {start : Span} (hinput : Ended file input) :
    Answers file equalities input (readEquality file start input) := by
  have hbehind : .mark .equals :: termSymbols .zero ∈ single {.mark .equals} * terms :=
    ⟨_, mark_mem_single _, _, zero_mem_terms, rfl⟩
  refine (answers_readTerm hinput (Nat.le_refl _)).bind prefixFree_terms hbehind
    fun l _ hl _ => ?_
  refine (answers_expect_mark _ (by decide) (by decide) hl).bind (prefixFree_single _)
    zero_mem_terms fun eq _ heq _ => ?_
  exact (answers_readTerm heq (Nat.le_refl _)).map fun _ => rfl

theorem answers_readQuantified (hinput : Ended file input) :
    Answers file (single names * single {.mark .colon}) input (readQuantified file input) := by
  refine (answers_expect_name _ hinput).bind (prefixFree_single _) (mark_mem_single _)
    fun name hname hrest _ => ?_
  rw [expect_eq_ok_iff.mp hname] at hinput
  obtain ⟨v, hv, -⟩ := hinput.nameAt_eq
  simp only [hv]
  exact (answers_expect_mark _ (by decide) (by decide) hrest).map fun _ => rfl

theorem answers_quantified {q : Quantifier} {span : Span}
    {body : Reading Variable → Except SyntaxError (Reading β)}
    (hinput : Ended file (⟨quantifierLexeme q, span⟩ :: rest))
    (hbody : ∀ r : Reading Variable, Ended file r.rest → r.rest.length ≤ rest.length →
      Answers file formulas r.rest (body r)) :
    Answers file formulas (⟨quantifierLexeme q, span⟩ :: rest)
      (readQuantified file rest >>= body) := by
  have hend : quantifierLexeme q ≠ .endOfInput := by cases q <;> decide
  have hname : quantifierLexeme q ≠ .name := by cases q <;> decide
  have hspell : spell file ⟨quantifierLexeme q, span⟩ = .mark (quantifierLexeme q) :=
    spell_eq_mark_iff.mpr ⟨rfl, hname⟩
  refine .cons nil_notMem_formulas (fun w => ?_)
    ((answers_readQuantified (hinput.tail hend).2).bind
      ((prefixFree_single _).mul (prefixFree_single _)) zero_eq_zero_mem_formulas
      fun r _ => hbody r)
  rw [hspell]
  exact quantifier_cons_mem_formulas

theorem answers_readFormula {depth : Nat} (hinput : Ended file input)
    (enough : input.length ≤ depth) :
    Answers file formulas input (readFormula file depth input) := by
  induction depth generalizing input with
  | zero => exact absurd (List.length_eq_zero_iff.mp (Nat.le_zero.mp enough)) hinput.ne_nil
  | succ depth ih =>
    cases input with
    | nil => exact absurd rfl hinput.ne_nil
    | cons t rest =>
      have hshort : rest.length ≤ depth := by simpa using enough
      rw [readFormula]
      split
      · next hl =>
        cases hl
        have hrest := (hinput.tail (by simp)).2
        have hclose : formulaSymbols (.equality .zero .zero) ++ [.mark .rightBracket] ∈
            formulas * single {.mark .rightBracket} :=
          ⟨_, zero_eq_zero_mem_formulas, _, mark_mem_single _, rfl⟩
        have hbehind : .mark .and ::
            (formulaSymbols (.equality .zero .zero) ++ [.mark .rightBracket]) ∈
              single connectives * (formulas * single {.mark .rightBracket}) :=
          ⟨_, ⟨_, ⟨.and, rfl⟩, rfl⟩, _, hclose, rfl⟩
        refine .cons nil_notMem_formulas (fun _ => bracket_cons_mem_formulas) ?_
        refine (ih hrest hshort).bind prefixFree_formulas hbehind fun l _ hl hlshort => ?_
        refine (answers_connective hl).bind (prefixFree_single _) hclose
          fun op _ hop hopshort => ?_
        have hright := ih hop (Nat.le_trans hopshort (Nat.le_trans hlshort hshort))
        refine hright.bind prefixFree_formulas (mark_mem_single _) fun r _ hr _ => ?_
        exact (answers_expect_mark _ (by decide) (by decide) hr).map fun _ => rfl
      · next hl =>
        cases hl
        have hrest := (hinput.tail (by simp)).2
        exact .cons nil_notMem_formulas (fun _ => tilde_cons_mem_formulas)
          (.map (ih hrest hshort) fun _ => rfl)
      · next hl =>
        cases hl
        refine answers_quantified (q := .forAll) hinput fun v hv hvshort => ?_
        exact (ih hv (Nat.le_trans hvshort hshort)).map fun _ => rfl
      · next hl =>
        cases hl
        refine answers_quantified (q := .thereIs) hinput fun v hv hvshort => ?_
        exact (ih hv (Nat.le_trans hvshort hshort)).map fun _ => rfl
      · next kind span hbracket htilde hforAll hthereIs hl =>
        cases hl
        have hother : ∀ k ∈ [Lexeme.leftBracket, .tilde, .forAll, .thereIs],
            spell file ⟨kind, span⟩ ≠ .mark k := by
          intro k hk hspell
          have hkind : kind = k := (spell_eq_mark_iff.mp hspell).1
          subst hkind
          simp only [List.mem_cons, List.not_mem_nil, or_false] at hk
          rcases hk with rfl | rfl | rfl | rfl
          · exact hbracket rfl
          · exact htilde rfl
          · exact hforAll rfl
          · exact hthereIs rfl
        refine .extend nil_notMem_formulas (fun _ => mem_formulas_of_mem_equalities) ?_
          (answers_readEquality hinput)
        exact fun w => mem_equalities_of_cons_mem_formulas hother

end Grammar

end Typographical
