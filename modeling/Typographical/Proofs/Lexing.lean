import Mathlib.Data.List.Basic
import Mathlib.Tactic.Common
import Typographical.Grammar.Lexeme

/-!
# Cutting a text into tokens

What the lexer does to the text of a term or formula is described piece by
piece: a mark is a piece of its own, blanks and names reach as far as they can,
and nothing else begins a piece. A text has tokens exactly if it can be cut into
such pieces, and then the tokens are these pieces without the blank ones.
-/

namespace Typographical

universe u

namespace Scanner

variable {α : Type u} {s : Scanner α} {p : α → Bool}

theorem unit_singleton_cons [DecidableEq α] (a b : α) (rest : List α) :
    unit [a] (b :: rest) = some (if a = b then 1 else 0) := by
  simp [unit]

/-- A scanner of single items, repeated, takes the longest run of them. -/
theorem repeated_eq (single : ∀ a rest, s (a :: rest) = some (if p a then 1 else 0))
    {rounds : Nat} {input : List α} (enough : input.length ≤ rounds) :
    repeated s rounds input = some (input.takeWhile p).length := by
  induction rounds generalizing input with
  | zero =>
    have hnil : input = [] := List.length_eq_zero_iff.mp (Nat.le_zero.mp enough)
    subst hnil
    rfl
  | succ rounds ih =>
    cases input with
    | nil => rfl
    | cons a rest =>
      simp only [List.length_cons, Nat.add_le_add_iff_right] at enough
      by_cases ha : p a = true
      · simp [repeated, single, ha, ih enough, Nat.add_comm]
      · simp [repeated, single, ha]

theorem many_eq (single : ∀ a rest, s (a :: rest) = some (if p a then 1 else 0))
    (input : List α) : many s input = some (input.takeWhile p).length :=
  repeated_eq single (Nat.le_refl _)

end Scanner

namespace Grammar

def isBlank (c : Char) : Bool := c = ' ' || c = '\t'

def isPrime (c : Char) : Bool := c = '\''

/-- The characters that are lexemes on their own. -/
def marks : List (Char × Lexeme) := [
  ('0', .zero), ('S', .successor), ('(', .leftParenthesis), (')', .rightParenthesis),
  ('[', .leftBracket), (']', .rightBracket), ('+', .plus), ('*', .times), ('=', .equals),
  ('&', .and), ('|', .or), ('>', .implies), ('~', .tilde), ('A', .forAll), ('E', .thereIs),
  (':', .colon)]

/-- The kind and the length of the piece that begins with `c`, if any does. -/
def piece (c : Char) (rest : List Char) : Option (Lexeme × Nat) :=
  match marks.lookup c with
  | some kind => some (kind, 1)
  | none =>
    if isBlank c then some (.blank, 1 + (rest.takeWhile isBlank).length)
    else if c.isLower then some (.name, 1 + (rest.takeWhile isPrime).length)
    else none

theorem rules_eq : rules =
    marks.map (fun m => ⟨.unit [m.1], m.2⟩) ++
      [⟨blanks, .blank⟩, ⟨variableName, .name⟩, ⟨.endOfInput, .endOfInput⟩] := rfl

theorem firstMatch_marks (ms : List (Char × Lexeme)) (more : List (LexRule Char Lexeme))
    (c : Char) (rest : List Char) :
    LexRule.firstMatch (ms.map (fun m => ⟨.unit [m.1], m.2⟩) ++ more) (c :: rest) =
      match ms.lookup c with
      | some kind => some (some (kind, 1))
      | none => LexRule.firstMatch more (c :: rest) := by
  induction ms with
  | nil => rfl
  | cons m ms ih =>
    obtain ⟨d, kind⟩ := m
    by_cases hd : d = c
    · subst hd
      simp [LexRule.firstMatch, Scanner.unit_singleton_cons]
    · have hcd : (c == d) = false := beq_false_of_ne (Ne.symm hd)
      simp only [List.map_cons, List.cons_append, LexRule.firstMatch,
        Scanner.unit_singleton_cons, if_neg hd, List.lookup_cons, hcd]
      exact ih

theorem blanks_eq (input : List Char) :
    blanks input = some (input.takeWhile isBlank).length := by
  apply Scanner.many_eq
  intro c rest
  by_cases hs : ' ' = c
  · subst hs
    rfl
  · by_cases ht : '\t' = c
    · subst ht
      rfl
    · simp [Scanner.firstOf, Scanner.unit_singleton_cons, isBlank, hs, ht, Ne.symm hs, Ne.symm ht]

theorem within_letters_iff (c : Char) : ('a' ≤ c ∧ c ≤ 'z') ↔ c.isLower = true := by
  change _ ↔ (decide (c.val ≥ 'a'.val) && decide (c.val ≤ 'z'.val)) = true
  simp [Char.le_def]

theorem variableName_cons (c : Char) (rest : List Char) :
    variableName (c :: rest) =
      some (if c.isLower then 1 + (rest.takeWhile isPrime).length else 0) := by
  have hprimes : Scanner.many (.unit ['\'']) rest = some (rest.takeWhile isPrime).length := by
    apply Scanner.many_eq
    intro d more
    simp [Scanner.unit_singleton_cons, isPrime, eq_comm]
  by_cases hc : c.isLower = true
  · have hwithin : 'a' ≤ c ∧ c ≤ 'z' := (within_letters_iff c).mpr hc
    simp [variableName, Scanner.andThen, Scanner.within, hwithin, hprimes, hc]
  · have hwithin : ¬ ('a' ≤ c ∧ c ≤ 'z') := fun h => hc ((within_letters_iff c).mp h)
    simp [variableName, Scanner.andThen, Scanner.within, hwithin, hc]

theorem firstMatch_cons (c : Char) (rest : List Char) :
    LexRule.firstMatch rules (c :: rest) = some (piece c rest) := by
  rw [rules_eq, firstMatch_marks, piece]
  cases marks.lookup c with
  | some kind => rfl
  | none =>
    simp only [LexRule.firstMatch, blanks_eq, variableName_cons]
    by_cases hb : isBlank c = true
    · simp [hb, Nat.add_comm]
    · by_cases hl : c.isLower = true
      · simp [hb, hl, Nat.add_comm 1]
      · simp [hb, hl, Scanner.endOfInput]

theorem firstMatch_nil : LexRule.firstMatch rules [] = some (some (.endOfInput, 1)) := rfl

theorem length_takeWhile_le (p : Char → Bool) (cs : List Char) :
    (cs.takeWhile p).length ≤ cs.length := (List.takeWhile_sublist p).length_le

/-- A piece is not empty and does not reach beyond the text. -/
theorem piece_bounds {c : Char} {rest : List Char} {kind : Lexeme} {n : Nat}
    (h : piece c rest = some (kind, n)) : 0 < n ∧ n ≤ rest.length + 1 := by
  have hb := length_takeWhile_le isBlank rest
  have hp := length_takeWhile_le isPrime rest
  unfold piece at h
  split at h
  · cases h
    omega
  · split at h
    · cases h
      omega
    · split at h
      · cases h
        omega
      · cases h

/-- The pieces of a text that begins at a position, the end of input last. -/
inductive Cut : Nat → List Char → List (Token Lexeme) → Prop
  | stop (i : Nat) : Cut i [] [⟨.endOfInput, .ofStart i 0⟩]
  | next {i n : Nat} {c : Char} {rest : List Char} {kind : Lexeme} {ts : List (Token Lexeme)}
      (first : piece c rest = some (kind, n)) (more : Cut (i + n) ((c :: rest).drop n) ts) :
      Cut i (c :: rest) (⟨kind, .ofStart i n⟩ :: ts)

abbrev lexerAt (cs : List Char) (i : Nat) : Lexer Char Lexeme := ⟨cs, rules, i, none⟩

variable {cs : List Char} {i : Nat}

theorem collectFrom_nil (rounds : Nat) (h : cs.drop i = []) (inside : i ≤ cs.length) :
    Lexer.collectFrom (rounds + 2) (lexerAt cs i) =
      ⟨some [⟨.endOfInput, .ofStart i 0⟩], lexerAt cs (cs.length + 1)⟩ := by
  have hi : i = cs.length := by
    have := List.drop_eq_nil_iff.mp h
    omega
  subst hi
  have hpast : ¬ cs.length + 1 ≤ cs.length := by omega
  simp [Lexer.collectFrom, Lexer.scan, Lexer.next, Lexer.remaining, firstMatch_nil, hpast]

theorem collectFrom_cons (rounds : Nat) {c : Char} {rest : List Char}
    (h : cs.drop i = c :: rest) :
    Lexer.collectFrom (rounds + 1) (lexerAt cs i) =
      match piece c rest with
      | none => ⟨some [], lexerAt cs i⟩
      | some (kind, n) =>
        let later := Lexer.collectFrom rounds (lexerAt cs (i + n))
        ⟨later.tokens.map (⟨kind, .ofStart i n⟩ :: ·), later.lexer⟩ := by
  have hlen : cs.length - i = rest.length + 1 := by
    have := congrArg List.length h
    simpa using this
  have hlt : i < cs.length := by omega
  have hle : i ≤ cs.length := by omega
  have hne : i ≠ cs.length := by omega
  cases hp : piece c rest with
  | none =>
    simp [Lexer.collectFrom, Lexer.scan, Lexer.next, h, firstMatch_cons, hp, hle]
  | some found =>
    obtain ⟨kind, n⟩ := found
    have hn : min n (cs.length - i) = n := by
      have := (piece_bounds hp).2
      omega
    have hstop : (Span.ofStart i n).stop.toNat = i + n := by
      simp only [Span.ofStart]
      omega
    simp [Lexer.collectFrom, Lexer.scan, Lexer.next, Lexer.remaining, h, firstMatch_cons, hp, hle,
      hn, hne, hstop]

theorem collectFrom_of_cut {rest : List Char} {ts : List (Token Lexeme)} {rounds : Nat}
    (h : Cut i rest ts) (hrest : cs.drop i = rest) (inside : i ≤ cs.length)
    (enough : rest.length + 2 ≤ rounds) :
    Lexer.collectFrom rounds (lexerAt cs i) = ⟨some ts, lexerAt cs (cs.length + 1)⟩ := by
  induction h generalizing rounds with
  | stop i =>
    obtain ⟨rounds, rfl⟩ : ∃ k, rounds = k + 2 := ⟨rounds - 2, by simp at enough; omega⟩
    exact collectFrom_nil rounds hrest inside
  | @next i n c rest kind ts first more ih =>
    obtain ⟨rounds, rfl⟩ : ∃ k, rounds = k + 1 := ⟨rounds - 1, by omega⟩
    obtain ⟨hpos, hle⟩ := piece_bounds first
    have hlen : cs.length - i = rest.length + 1 := by
      have := congrArg List.length hrest
      simpa using this
    have hdrop : cs.drop (i + n) = (c :: rest).drop n := by
      rw [← List.drop_drop, hrest]
    have hrounds : ((c :: rest).drop n).length + 2 ≤ rounds := by
      simp only [List.length_drop, List.length_cons] at enough ⊢
      omega
    rw [collectFrom_cons rounds hrest, first]
    simp only [ih hdrop (by omega) hrounds, Option.map_some]

/-- If nothing is left over then the text was cut into pieces. -/
theorem cut_of_collectFrom {rounds : Nat} (inside : i ≤ cs.length)
    (enough : (cs.drop i).length + 2 ≤ rounds)
    (done : (Lexer.collectFrom rounds (lexerAt cs i)).lexer.remaining = 0) :
    ∃ ts, Cut i (cs.drop i) ts := by
  induction rounds generalizing i with
  | zero => omega
  | succ rounds ih =>
    cases hrest : cs.drop i with
    | nil => exact ⟨_, .stop i⟩
    | cons c rest =>
      have hlen : cs.length - i = rest.length + 1 := by
        have := congrArg List.length hrest
        simpa using this
      rw [collectFrom_cons rounds hrest] at done
      cases hp : piece c rest with
      | none =>
        rw [hp] at done
        simp only [Lexer.remaining] at done
        omega
      | some found =>
        obtain ⟨kind, n⟩ := found
        rw [hp] at done
        obtain ⟨hpos, hle⟩ := piece_bounds hp
        have hdrop : cs.drop (i + n) = (c :: rest).drop n := by
          rw [← List.drop_drop, hrest]
        have hrounds : (cs.drop (i + n)).length + 2 ≤ rounds := by
          rw [hrest] at enough
          rw [hdrop]
          simp only [List.length_drop, List.length_cons] at enough ⊢
          omega
        obtain ⟨ts, hts⟩ := ih (by omega) hrounds done
        rw [hdrop] at hts
        exact ⟨_, .next hp hts⟩

def visible (ts : List (Token Lexeme)) : List (Token Lexeme) :=
  ts.filter (fun t => t.kind ≠ .blank)

theorem visible_cons_of_blank {t : Token Lexeme} (h : t.kind = .blank)
    (ts : List (Token Lexeme)) : visible (t :: ts) = visible ts := by
  simp [visible, h]

theorem visible_cons_of_ne {t : Token Lexeme} (h : t.kind ≠ .blank)
    (ts : List (Token Lexeme)) : visible (t :: ts) = t :: visible ts := by
  simp [visible, h]

theorem tokens_eq_ok_iff {file : SourceFile} {us : List (Token Lexeme)} :
    tokens file = .ok us ↔
      ∃ ts, Cut 0 file.contents ts ∧ us = visible ts := by
  have hcut : ∀ ts, Cut 0 file.contents ts →
      Lexer.collect (lexerAt file.contents 0) =
        ⟨some ts, lexerAt file.contents (file.contents.length + 1)⟩ :=
    fun ts h => collectFrom_of_cut h rfl (Nat.zero_le _) (Nat.le_refl _)
  rw [tokens]
  constructor
  · intro h
    split at h
    · next ts hts hdone =>
      obtain ⟨ts', hts'⟩ := cut_of_collectFrom (Nat.zero_le _) (Nat.le_refl _) hdone
      rw [List.drop_zero] at hts'
      rw [hcut ts' hts'] at hts
      cases hts
      cases h
      exact ⟨ts, hts', rfl⟩
    · cases h
  · rintro ⟨ts, hts, rfl⟩
    rw [hcut ts hts]
    simp [Lexer.remaining, visible]

end Grammar

end Typographical
