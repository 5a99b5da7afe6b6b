import Mathlib.Data.List.TakeWhile
import Typographical.Formula
import Typographical.Proofs.Lexing

/-!
# Unique readability

The text of a term or formula determines it, although nothing separates `S`, `~`
and the quantifiers from what comes behind them. The only thing that a text
leaves open is where it ends: a name may go on with primes. So a text that begins
with the text of a term, and goes on with something other than a prime, begins
with the text of no other term.

The induction is on one of two terms or formulas whose texts begin the same text,
with anything behind them.
-/

namespace Typographical

/-- What comes behind the primes at the beginning of a text. -/
def behindPrimes (cs : List Char) : List Char := cs.dropWhile Grammar.isPrime

theorem behindPrimes_cons {c : Char} (h : c ≠ '\'') (cs : List Char) :
    behindPrimes (c :: cs) = c :: cs := by
  rw [behindPrimes, List.dropWhile_cons_of_neg]
  simpa [Grammar.isPrime] using h

theorem behindPrimes_replicate_append (k : Nat) (cs : List Char) :
    behindPrimes (List.replicate k '\'' ++ cs) = behindPrimes cs := by
  induction k with
  | zero => rfl
  | succ k ih => exact ih

theorem behindPrimes_eq_nil_iff {cs : List Char} :
    behindPrimes cs = [] ↔ ∀ c ∈ cs, c = '\'' := by
  rw [behindPrimes, List.dropWhile_eq_nil_iff]
  simp [Grammar.isPrime]

/-- Texts that begin with the one printed for `a` go on in the same way, up to
primes, whatever they were printed for; and those that go on in the very same way
were printed for `a`. -/
def Readable {α : Type} (print : α → List Char) (a : α) : Prop :=
  ∀ b xs ys, print a ++ xs = print b ++ ys →
    behindPrimes xs = behindPrimes ys ∧ (xs = ys → a = b)

section Readable

variable {α : Type} {print : α → List Char} {a a' b b' : α} {c c' : Char} {xs ys : List Char}

/-- A character other than a prime shows where a text ends. -/
theorem Readable.followed (h : Readable print a) (hc : c ≠ '\'') (hc' : c' ≠ '\'')
    (heq : print a ++ c :: xs = print b ++ c' :: ys) : a = b ∧ c = c' ∧ xs = ys := by
  obtain ⟨hrest, hsame⟩ := h b _ _ heq
  rw [behindPrimes_cons hc, behindPrimes_cons hc'] at hrest
  obtain ⟨hcc, hxy⟩ := List.cons.inj hrest
  exact ⟨hsame hrest, hcc, hxy⟩

/-- Two texts with a character between them and one behind them. -/
theorem Readable.bracketed {close : Char} (ha : Readable print a) (hb : Readable print b)
    (hc : c ≠ '\'') (hc' : c' ≠ '\'') (hclose : close ≠ '\'')
    (heq : print a ++ c :: (print b ++ close :: xs) =
      print a' ++ c' :: (print b' ++ close :: ys)) :
    a = a' ∧ c = c' ∧ b = b' ∧ xs = ys := by
  obtain ⟨haa, hcc, heq⟩ := ha.followed hc hc' heq
  obtain ⟨hbb, -, hxy⟩ := hb.followed hclose hclose heq
  exact ⟨haa, hcc, hbb, hxy⟩

theorem Readable.text_eq_iff (h : Readable print a) :
    a = b ↔ String.ofList (print a) = String.ofList (print b) := by
  constructor
  · intro hab
    rw [hab]
  · intro htext
    have hchars : print a ++ [] = print b ++ [] := congrArg (· ++ []) (String.ofList_inj.mp htext)
    exact (h b [] [] hchars).2 rfl

/-- Only primes are missing where one text begins another. -/
theorem Readable.eq_prime_of_prefix (h : Readable print a) {rest : String}
    (htext : String.ofList (print b) = String.ofList (print a) ++ rest) :
    ∀ c ∈ rest.toList, c = '\'' := by
  have hchars : print a ++ rest.toList = print b ++ [] := by
    have := congrArg String.toList htext
    simpa using this.symm
  exact behindPrimes_eq_nil_iff.mp (h b _ _ hchars).1

end Readable

theorem Variable.letter_ne (v : Variable) {c : Char} (h : c.isLower = false) : v.letter ≠ c := by
  intro heq
  have hlower := v.lowercase
  rw [heq, h] at hlower
  cases hlower

theorem Variable.readable_chars (v : Variable) : Readable chars v := by
  intro w xs ys h
  rw [chars, chars, List.cons_append, List.cons_append, List.cons.injEq] at h
  obtain ⟨hletter, hrest⟩ := h
  constructor
  · rw [← behindPrimes_replicate_append v.primes, hrest, behindPrimes_replicate_append]
  · intro hxy
    rw [hxy, List.append_cancel_right_eq, List.replicate_left_inj] at hrest
    cases v
    cases w
    simp_all

namespace Term

theorem readable_chars (t : Term) : Readable chars t := by
  induction t with
  | zero =>
    intro u xs ys h
    cases u with
    | zero => exact ⟨congrArg behindPrimes (List.cons.inj h).2, fun _ => rfl⟩
    | var w => exact absurd (List.cons.inj h).1.symm (w.letter_ne rfl)
    | succ | sum | product => simp [chars] at h
  | var v =>
    intro u xs ys h
    cases u with
    | var w =>
      obtain ⟨hrest, hsame⟩ := v.readable_chars w xs ys h
      exact ⟨hrest, fun hxy => congrArg var (hsame hxy)⟩
    | zero | succ | sum | product => exact absurd (List.cons.inj h).1 (v.letter_ne rfl)
  | succ t ih =>
    intro u xs ys h
    cases u with
    | var w => exact absurd (List.cons.inj h).1.symm (w.letter_ne rfl)
    | succ u =>
      obtain ⟨hrest, hsame⟩ := ih u xs ys (List.cons.inj h).2
      exact ⟨hrest, fun hxy => congrArg succ (hsame hxy)⟩
    | zero | sum | product => simp [chars] at h
  | sum l r ihl ihr =>
    intro u xs ys h
    cases u with
    | var w => exact absurd (List.cons.inj h).1.symm (w.letter_ne rfl)
    | sum l' r' =>
      simp only [chars, List.cons_append, List.append_assoc, List.nil_append, List.cons.injEq,
        true_and] at h
      obtain ⟨rfl, -, rfl, rfl⟩ := ihl.bracketed ihr (by decide) (by decide) (by decide) h
      exact ⟨rfl, fun _ => rfl⟩
    | product l' r' =>
      simp only [chars, List.cons_append, List.append_assoc, List.nil_append, List.cons.injEq,
        true_and] at h
      cases (ihl.bracketed ihr (by decide) (by decide) (by decide) h).2.1
    | zero | succ => simp [chars] at h
  | product l r ihl ihr =>
    intro u xs ys h
    cases u with
    | var w => exact absurd (List.cons.inj h).1.symm (w.letter_ne rfl)
    | product l' r' =>
      simp only [chars, List.cons_append, List.append_assoc, List.nil_append, List.cons.injEq,
        true_and] at h
      obtain ⟨rfl, -, rfl, rfl⟩ := ihl.bracketed ihr (by decide) (by decide) (by decide) h
      exact ⟨rfl, fun _ => rfl⟩
    | sum l' r' =>
      simp only [chars, List.cons_append, List.append_assoc, List.nil_append, List.cons.injEq,
        true_and] at h
      cases (ihl.bracketed ihr (by decide) (by decide) (by decide) h).2.1
    | zero | succ => simp [chars] at h

/-- No term begins like a formula that is not an equality. -/
theorem chars_append_ne {t : Term} {c : Char} (h : c ∈ ['~', '[', 'A', 'E'])
    (xs ys : List Char) : t.chars ++ xs ≠ c :: ys := by
  intro heq
  cases t with
  | var v =>
    have hlower : c.isLower = false := by
      simp only [List.mem_cons, List.not_mem_nil, or_false] at h
      rcases h with rfl | rfl | rfl | rfl <;> rfl
    exact v.letter_ne hlower (List.cons.inj heq).1
  | zero | succ | sum | product =>
    rw [← (List.cons.inj heq).1] at h
    exact absurd h (by decide)

end Term

theorem Quantifier.symbol_mem (q : Quantifier) : q.symbol ∈ ['~', '[', 'A', 'E'] := by
  cases q <;> decide

theorem Quantifier.symbol_injective {q q' : Quantifier} (h : q.symbol = q'.symbol) : q = q' := by
  cases q <;> cases q' <;> first | rfl | cases h

theorem Connective.symbol_ne_prime (op : Connective) : op.symbol ≠ '\'' := by
  cases op <;> decide

theorem Connective.symbol_injective {op op' : Connective} (h : op.symbol = op'.symbol) :
    op = op' := by
  cases op <;> cases op' <;> first | rfl | cases h

namespace Formula

theorem equality_append_ne {l r : Term} {c : Char} (h : c ∈ ['~', '[', 'A', 'E'])
    (xs ys : List Char) : (equality l r).chars ++ xs ≠ c :: ys := by
  rw [chars, List.append_assoc]
  exact Term.chars_append_ne h _ _

theorem readable_chars (f : Formula) : Readable chars f := by
  induction f with
  | equality l r =>
    intro g xs ys h
    cases g with
    | equality l' r' =>
      simp only [chars, List.append_assoc, List.cons_append] at h
      obtain ⟨rfl, -, h⟩ := l.readable_chars.followed (by decide) (by decide) h
      obtain ⟨hrest, hsame⟩ := r.readable_chars r' xs ys h
      exact ⟨hrest, fun hxy => by rw [hsame hxy]⟩
    | neg g => exact absurd h (equality_append_ne (by simp) _ _)
    | binary op l' r' => exact absurd h (equality_append_ne (by simp) _ _)
    | quantified q v g => exact absurd h (equality_append_ne q.symbol_mem _ _)
  | neg f ih =>
    intro g xs ys h
    cases g with
    | equality l r => exact absurd h.symm (equality_append_ne (by simp) _ _)
    | neg g =>
      obtain ⟨hrest, hsame⟩ := ih g xs ys (List.cons.inj h).2
      exact ⟨hrest, fun hxy => congrArg neg (hsame hxy)⟩
    | binary op l r => simp [chars] at h
    | quantified q v g => cases q <;> simp [chars, Quantifier.symbol] at h
  | binary op l r ihl ihr =>
    intro g xs ys h
    cases g with
    | equality l' r' => exact absurd h.symm (equality_append_ne (by simp) _ _)
    | neg g => simp [chars] at h
    | binary op' l' r' =>
      simp only [chars, List.cons_append, List.append_assoc, List.nil_append, List.cons.injEq,
        true_and] at h
      obtain ⟨rfl, hop, rfl, rfl⟩ :=
        ihl.bracketed ihr op.symbol_ne_prime op'.symbol_ne_prime (by decide) h
      exact ⟨rfl, fun _ => by rw [Connective.symbol_injective hop]⟩
    | quantified q v g => cases q <;> simp [chars, Quantifier.symbol] at h
  | quantified q v f ih =>
    intro g xs ys h
    cases g with
    | equality l r => exact absurd h.symm (equality_append_ne q.symbol_mem _ _)
    | neg g => cases q <;> simp [chars, Quantifier.symbol] at h
    | binary op l r => cases q <;> simp [chars, Quantifier.symbol] at h
    | quantified q' v' g =>
      simp only [chars, List.cons_append, List.append_assoc, List.cons.injEq] at h
      obtain ⟨hq, h⟩ := h
      obtain ⟨rfl, -, h⟩ := v.readable_chars.followed (by decide) (by decide) h
      obtain ⟨hrest, hsame⟩ := ih g xs ys h
      exact ⟨hrest, fun hxy => by rw [Quantifier.symbol_injective hq, hsame hxy]⟩

/-- Terms are equal exactly if their texts are, and so are formulas, be they well
quantified or not. Where the text of a term or formula begins the text of another
one, nothing but primes is missing. -/
theorem unique_readability :
    (∀ t u : Term, t = u ↔ t.text = u.text) ∧
    (∀ f g : Formula, f = g ↔ f.text = g.text) ∧
    (∀ (t u : Term) (rest : String), u.text = t.text ++ rest → ∀ c ∈ rest.toList, c = '\'') ∧
    (∀ (f g : Formula) (rest : String),
      g.text = f.text ++ rest → ∀ c ∈ rest.toList, c = '\'') := by
  refine ⟨?_, ?_, ?_, ?_⟩
  · intro t u
    exact t.readable_chars.text_eq_iff
  · intro f g
    exact f.readable_chars.text_eq_iff
  · intro t u rest h
    exact t.readable_chars.eq_prime_of_prefix h
  · intro f g rest h
    exact f.readable_chars.eq_prime_of_prefix h

/-- The text of one formula that begins the text of another one, which says
something else about a variable with more primes. -/
theorem unique_readability_primes :
    let a := Variable.austere 0
    let f := thereIs a (equality (.succ (.var a)) (.var a))
    let g := thereIs a (equality (.succ (.var a)) (.var (.austere 2)))
    f ≠ g ∧ g.text = f.text ++ "''" ∧ ∀ c ∈ "''".toList, c = '\'' := by
  intro a f g
  have htext : g.text = f.text ++ "''" := by decide
  exact ⟨by decide, htext, unique_readability.2.2.2 f g _ htext⟩

end Formula

end Typographical
