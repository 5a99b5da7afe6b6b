import Mathlib.Data.List.Basic
import Typographical.Text.Lexer

/-!
# What collecting tokens comes to

A lexer is given rules whose scanners keep to the items that there are. Then each
token takes it on by one place at least, up to one place behind the last item, so
that taking tokens comes to an end. The tokens that were taken stand one behind
the other from the start on, and the lexer stops only behind the last item or
where no rule matches.

The scanner for the end of input reports one item where there is none. Its token
is empty, and the place behind the last item is there for the lexer to move on.
-/

namespace Typographical

universe u v

namespace Scanner

variable {α : Type u} {s t : Scanner α}

/-- The scanner never overruns and reports no more items than there are. -/
def Inside (s : Scanner α) : Prop := ∀ input, ∃ n, s input = some n ∧ n ≤ input.length

/-- The same, but at the end of input one item may be reported. -/
def Modest (s : Scanner α) : Prop :=
  ∀ input, ∃ n, s input = some n ∧ (n ≤ input.length ∨ input = [] ∧ n = 1)

theorem Inside.modest (h : s.Inside) : s.Modest := by
  intro input
  obtain ⟨n, hn, hle⟩ := h input
  exact ⟨n, hn, Or.inl hle⟩

theorem modest_endOfInput : (endOfInput : Scanner α).Modest
  | [] => ⟨1, rfl, Or.inr ⟨rfl, rfl⟩⟩
  | _ :: _ => ⟨0, rfl, Or.inl (Nat.zero_le _)⟩

theorem inside_unit [DecidableEq α] (items : List α) : (unit items).Inside := by
  intro input
  refine ⟨_, rfl, ?_⟩
  split
  · next h => exact (List.isPrefixOf_iff_prefix.mp h).length_le
  · exact Nat.zero_le _

theorem inside_within [LE α] [DecidableLE α] (lowest highest : α) :
    (within lowest highest).Inside
  | [] => ⟨0, rfl, Nat.zero_le _⟩
  | a :: rest => by
    refine ⟨_, rfl, ?_⟩
    split
    · exact Nat.succ_le_succ (Nat.zero_le _)
    · exact Nat.zero_le _

theorem Inside.andThen (hs : s.Inside) (ht : t.Inside) : (s.andThen t).Inside := by
  intro input
  obtain ⟨n, hn, hle⟩ := hs input
  obtain ⟨m, hm, hle'⟩ := ht (input.drop n)
  rw [List.length_drop] at hle'
  cases n with
  | zero => exact ⟨0, by simp [Scanner.andThen, hn], Nat.zero_le _⟩
  | succ n => exact ⟨n + 1 + m, by simp [Scanner.andThen, hn, hm, hle], by omega⟩

theorem inside_firstOf {scanners : List (Scanner α)} (h : ∀ s ∈ scanners, s.Inside) :
    (firstOf scanners).Inside := by
  intro input
  induction scanners with
  | nil => exact ⟨0, rfl, Nat.zero_le _⟩
  | cons s scanners ih =>
    obtain ⟨hs, hrest⟩ := List.forall_mem_cons.mp h
    obtain ⟨n, hn, hle⟩ := hs input
    cases n with
    | zero => simpa [firstOf, hn] using ih hrest
    | succ n => exact ⟨n + 1, by simp [firstOf, hn], hle⟩

theorem Inside.repeated (h : s.Inside) (rounds : Nat) : (repeated s rounds).Inside := by
  induction rounds with
  | zero => exact fun input => ⟨0, rfl, Nat.zero_le _⟩
  | succ rounds ih =>
    intro input
    cases input with
    | nil => exact ⟨0, rfl, Nat.zero_le _⟩
    | cons a rest =>
      obtain ⟨n, hn, hle⟩ := h (a :: rest)
      obtain ⟨m, hm, hle'⟩ := ih ((a :: rest).drop n)
      rw [List.length_drop] at hle'
      cases n with
      | zero => exact ⟨0, by simp [Scanner.repeated, hn], Nat.zero_le _⟩
      | succ n =>
        exact ⟨n + 1 + m, by simp only [Scanner.repeated, hn, hm, Option.map_some], by omega⟩

theorem Inside.many (h : s.Inside) : (many s).Inside := fun input => h.repeated _ input

end Scanner

namespace LexRule

variable {α : Type u} {κ : Type v} {rules : List (LexRule α κ)}

/-- Modest rules either all fail to match, or one of them matches. -/
theorem firstMatch_of_modest (modest : ∀ r ∈ rules, r.scanner.Modest) (input : List α) :
    (firstMatch rules input = some none ∧ ∀ r ∈ rules, r.scanner input = some 0) ∨
      ∃ kind n, firstMatch rules input = some (some (kind, n)) ∧ 0 < n ∧
        (n ≤ input.length ∨ input = [] ∧ n = 1) := by
  induction rules with
  | nil => exact Or.inl ⟨rfl, List.forall_mem_nil _⟩
  | cons r rules ih =>
    obtain ⟨hr, hrest⟩ := List.forall_mem_cons.mp modest
    obtain ⟨n, hn, hle⟩ := hr input
    cases n with
    | zero =>
      have hfirst : firstMatch (r :: rules) input = firstMatch rules input := by
        simp [firstMatch, hn]
      rw [hfirst, List.forall_mem_cons]
      exact (ih hrest).imp_left fun h => ⟨h.1, hn, h.2⟩
    | succ n => exact Or.inr ⟨r.kind, n + 1, by simp [firstMatch, hn], Nat.succ_pos n, hle⟩

end LexRule

namespace Lexer

variable {α : Type u} {κ : Type v} {rules : List (LexRule α κ)} {items : List α} {i j : Nat}
  {ts : List (Token κ)}

/-- Taking tokens for as long as there is a next one: what has been taken when
this comes to an end, and how the lexer is left. -/
inductive Drains : Lexer α κ → List (Token κ) → Lexer α κ → Prop
  | stop {l final : Lexer α κ} (ended : l.hasNext = some (false, final)) : Drains l [] final
  | take {l ready moved final : Lexer α κ} {t : Token κ} {ts : List (Token κ)}
      (found : l.hasNext = some (true, ready)) (taken : ready.next = some (t, moved))
      (later : Drains moved ts final) : Drains l (t :: ts) final

/-- Tokens one behind the other, from position `i` on, and the index at which the
lexer is left. Each is of the first rule that matches where it begins. None is
empty, except that the last one may be found at the end of the items. -/
inductive Row (rules : List (LexRule α κ)) (items : List α) : Nat → List (Token κ) → Nat → Prop
  | nil (i : Nat) : Row rules items i [] i
  | last {kind : κ} (first : LexRule.firstMatch rules [] = some (some (kind, 1))) :
      Row rules items items.length [⟨kind, .ofStart items.length 0⟩] (items.length + 1)
  | cons {i j n : Nat} {kind : κ} {ts : List (Token κ)}
      (first : LexRule.firstMatch rules (items.drop i) = some (some (kind, n)))
      (long : 0 < n) (inside : i + n ≤ items.length) (later : Row rules items (i + n) ts j) :
      Row rules items i (⟨kind, .ofStart i n⟩ :: ts) j

theorem Row.length_le (h : Row rules items i ts j) : i + ts.length ≤ j := by
  induction h with
  | nil i => exact Nat.le_refl _
  | last first => exact Nat.le_refl _
  | cons first long inside later ih =>
    rw [List.length_cons]
    omega

theorem Row.index_le (h : Row rules items i ts j) (inside : i ≤ items.length + 1) :
    j ≤ items.length + 1 := by
  induction h with
  | nil i => exact inside
  | last first => exact Nat.le_refl _
  | cons first long inside' later ih => exact ih (by omega)

/-- Where nothing is found, the lexer stays as it is. -/
theorem drains_nil (h : (⟨items, rules, i, none⟩ : Lexer α κ).scan = some ⟨items, rules, i, none⟩) :
    Drains ⟨items, rules, i, none⟩ [] (⟨items, rules, i, none⟩ : Lexer α κ) := by
  refine .stop ?_
  rw [hasNext, h]
  rfl

theorem scan_past (h : items.length < i) :
    (⟨items, rules, i, none⟩ : Lexer α κ).scan = some ⟨items, rules, i, none⟩ := by
  simp [scan, Nat.not_le.mpr h]

theorem scan_unmatched (inside : i ≤ items.length)
    (unmatched : LexRule.firstMatch rules (items.drop i) = some none) :
    (⟨items, rules, i, none⟩ : Lexer α κ).scan = some ⟨items, rules, i, none⟩ := by
  simp [scan, inside, unmatched]

theorem scan_matched {kind : κ} {n : Nat} (inside : i ≤ items.length)
    (first : LexRule.firstMatch rules (items.drop i) = some (some (kind, n))) :
    (⟨items, rules, i, none⟩ : Lexer α κ).scan =
      some ⟨items, rules, i, some ⟨kind, .ofStart i (min n (items.length - i))⟩⟩ := by
  simp [scan, inside, first, remaining]

/-- A token at the end of the items takes the lexer one place further. -/
theorem drains_last {kind : κ} {final : Lexer α κ}
    (first : LexRule.firstMatch rules [] = some (some (kind, 1)))
    (later : Drains ⟨items, rules, items.length + 1, none⟩ ts final) :
    Drains ⟨items, rules, items.length, none⟩
      (⟨kind, .ofStart items.length 0⟩ :: ts) final := by
  rw [← items.drop_length] at first
  refine .take (by rw [hasNext, scan_matched (Nat.le_refl _) first]; rfl) ?_ later
  simp [next]

/-- Any other token takes the lexer to where it ends. -/
theorem drains_cons {kind : κ} {n : Nat} {final : Lexer α κ}
    (first : LexRule.firstMatch rules (items.drop i) = some (some (kind, n)))
    (long : 0 < n) (inside : i + n ≤ items.length)
    (later : Drains ⟨items, rules, i + n, none⟩ ts final) :
    Drains ⟨items, rules, i, none⟩ (⟨kind, .ofStart i n⟩ :: ts) final := by
  have hi : i ≤ items.length := by omega
  have hne : i ≠ items.length := by omega
  have hclip : min n (items.length - i) = n := by omega
  have hstop : (Span.ofStart i n).stop.toNat = i + n := by
    simp only [Span.ofStart]
    omega
  refine .take (by rw [hasNext, scan_matched hi first, hclip]; rfl) ?_ later
  simp [next, hne, hstop]

/-- Modest rules take the lexer to the end, or to a place where none matches. Each
token brings the index closer to the place behind the last item. -/
theorem exists_drains (modest : ∀ r ∈ rules, r.scanner.Modest) (items : List α)
    (inside : i ≤ items.length + 1) :
    ∃ ts j, Drains ⟨items, rules, i, none⟩ ts (⟨items, rules, j, none⟩ : Lexer α κ) ∧
      Row rules items i ts j ∧
      (items.length ≤ j ∨ ∀ r ∈ rules, r.scanner (items.drop j) = some 0) := by
  induction hleft : items.length + 1 - i using Nat.strongRecOn generalizing i with
  | ind left ih =>
    rcases Nat.lt_or_ge items.length i with hpast | hi
    · exact ⟨[], i, drains_nil (scan_past hpast), .nil i, Or.inl (by omega)⟩
    rcases LexRule.firstMatch_of_modest modest (items.drop i) with
      ⟨hnone, hall⟩ | ⟨kind, n, hfirst, hpos, hn⟩
    · exact ⟨[], i, drains_nil (scan_unmatched hi hnone), .nil i, Or.inr hall⟩
    rw [List.length_drop, List.drop_eq_nil_iff] at hn
    rcases hn with hn | ⟨hend, rfl⟩
    · obtain ⟨ts, j, hdrains, hrow, hstop⟩ := ih _ (by omega) (i := i + n) (by omega) rfl
      have hin : i + n ≤ items.length := by omega
      exact ⟨_, j, drains_cons hfirst hpos hin hdrains, .cons hfirst hpos hin hrow, hstop⟩
    · obtain rfl : i = items.length := Nat.le_antisymm hi hend
      rw [List.drop_length] at hfirst
      exact ⟨_, _, drains_last hfirst (drains_nil (scan_past (Nat.lt_succ_self _))), .last hfirst,
        Or.inl (Nat.le_succ _)⟩

/-- Collecting does what taking the tokens one by one does, if it is not cut short. -/
theorem Drains.collectFrom {l final : Lexer α κ} {rounds : Nat} (h : Drains l ts final)
    (enough : ts.length < rounds) : collectFrom rounds l = ⟨some ts, final⟩ := by
  induction h generalizing rounds with
  | @stop l final ended =>
    obtain ⟨rounds, rfl⟩ : ∃ k, rounds = k + 1 := ⟨rounds - 1, by omega⟩
    obtain ⟨scanned, hscan, hbuffer⟩ := Option.map_eq_some_iff.mp ended
    obtain ⟨hnone, rfl⟩ := Prod.mk.inj hbuffer
    have hempty := Option.isNone_iff_eq_none.mp (Option.isSome_eq_false_iff.mp hnone)
    simp [Lexer.collectFrom, hscan, next, hempty]
  | @take l ready moved final t ts found taken later ih =>
    obtain ⟨rounds, rfl⟩ : ∃ k, rounds = k + 1 := ⟨rounds - 1, by omega⟩
    obtain ⟨scanned, hscan, hbuffer⟩ := Option.map_eq_some_iff.mp found
    obtain ⟨-, rfl⟩ := Prod.mk.inj hbuffer
    have hlater := ih (Nat.lt_of_succ_lt_succ enough)
    simp [Lexer.collectFrom, hscan, taken, hlater]

/-- Collecting with modest rules comes to an end and gives all tokens that there
are, in a row from the start on; and nothing remains, or no rule matches where the
lexer is left. -/
theorem exists_collect (modest : ∀ r ∈ rules, r.scanner.Modest) (items : List α) :
    ∃ ts final, collect (⟨items, rules, 0, none⟩ : Lexer α κ) = ⟨some ts, final⟩ ∧
      Drains ⟨items, rules, 0, none⟩ ts final ∧ Row rules items 0 ts final.index ∧
      (final.remaining = 0 ∨ ∀ r ∈ rules, r.scanner (items.drop final.index) = some 0) := by
  obtain ⟨ts, j, hdrains, hrow, hstop⟩ := exists_drains modest items (Nat.zero_le _)
  have hlength := hrow.length_le
  have hindex := hrow.index_le (Nat.zero_le _)
  have enough : ts.length < items.length + 2 := by omega
  exact ⟨ts, _, hdrains.collectFrom enough, hdrains, hrow, hstop.imp_left Nat.sub_eq_zero_of_le⟩

end Lexer

end Typographical
