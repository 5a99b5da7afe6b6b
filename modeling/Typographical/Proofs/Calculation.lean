import Mathlib.Algebra.Group.Nat.Defs
import Mathlib.Data.Nat.Size
import Mathlib.Logic.Function.Iterate
import Typographical.Proofs.Derivability

/-!
# Calculating with numerals

The rules are strong enough to calculate. That the sum of two numerals is the
numeral of the sum takes a fixed number of theorems: adding a numeral to a term
is taking successors of it, which is shown by induction on the term.

From this it follows that as many successors may be taken of equal terms, which
is no rule by itself. With it a law about multiplying by `k` successors and one
about multiplying by `j` successors make one about multiplying by `j + k`, and so
a product takes as many theorems as its second factor has binary digits, up to a
factor. Going through the second factor successor by successor would take too
many: only theorems that can be numbered with 64 bits can be used.
-/

namespace Typographical

namespace Term

variable {t u : Term} {v : Variable}

@[simp]
theorem replace_iterate_succ (k : Nat) : (succ^[k] t).replace v u = succ^[k] (t.replace v u) := by
  induction k with
  | zero => rfl
  | succ k ih => rw [Function.iterate_succ_apply', replace_succ, ih, Function.iterate_succ_apply']

theorem numeral_eq_iterate (n : Nat) : numeral n = succ^[n] zero := by
  induction n with
  | zero => rfl
  | succ n ih => rw [numeral, ih, Function.iterate_succ_apply']

@[simp]
theorem replace_numeral (n : Nat) : (numeral n).replace v u = numeral n := by
  rw [numeral_eq_iterate, replace_iterate_succ, replace_zero]

@[simp]
theorem occurrences_iterate_succ (k : Nat) (t : Term) :
    (succ^[k] t).occurrences = t.occurrences := by
  induction k with
  | zero => rfl
  | succ k ih => rw [Function.iterate_succ_apply', occurrences, ih]

@[simp]
theorem occurrences_numeral (n : Nat) : (numeral n).occurrences = [] := by
  rw [numeral_eq_iterate, occurrences_iterate_succ, occurrences]

end Term

def Variable.a : Variable := .austere 0

def Variable.b : Variable := .austere 1

def Variable.c : Variable := .austere 2

abbrev Term.a : Term := .var .a

abbrev Term.b : Term := .var .b

abbrev Term.c : Term := .var .c

theorem Variable.b_ne_a : Variable.b ≠ .a := by decide

theorem Variable.c_ne_a : Variable.c ≠ .a := by decide

namespace Deduction

variable {p : Option Formula} {given : List Formula} {j k m : Nat} {l r t u : Term}
  {v w : Variable}

theorem Derives.instantiate (h : Derives p given k (.forAll v (.equality l r))) (t : Term) :
    Derives p given (k + 1) (.equality (l.replace v t) (r.replace v t)) :=
  h.specify t fun _ _ => List.not_mem_nil

theorem Derives.instantiate₂ (h : Derives p given k (.forAll v (.forAll w (.equality l r))))
    (t u : Term) (hvw : w ≠ v) (ht : w ∉ t.occurrences) :
    Derives p given (k + 2) (.equality ((l.replace v t).replace w u)
      ((r.replace v t).replace w u)) := by
  have hfits : ∀ x ∈ t.occurrences, x ∉ (Formula.forAll w (.equality l r)).quantifiedVars := by
    intro x hx hmem
    rw [Formula.quantifiedVars, Formula.quantifiedVars, List.mem_singleton] at hmem
    exact ht (hmem ▸ hx)
  have hfirst := h.specify t hfits
  rw [Formula.substitute, if_neg hvw] at hfirst
  exact hfirst.instantiate u

theorem derives_sum_zero (t : Term) : Derives p given 2 (.equality (.sum t .zero) t) := by
  have hlaw : Derives p given 1 (.forAll .a (.equality (.sum .a .zero) .a)) :=
    .postulate 1 (by decide +kernel) (by decide)
  simpa using hlaw.instantiate t

theorem derives_sum_succ (t u : Term) (ht : .c ∉ t.occurrences) :
    Derives p given 3 (.equality (.sum t (.succ u)) (.succ (.sum t u))) := by
  have hlaw : Derives p given 1 (.forAll .a (.forAll .c
      (.equality (.sum .a (.succ .c)) (.succ (.sum .a .c))))) :=
    .postulate 2 (by decide +kernel) (by decide)
  simpa [Term.replace_eq_self ht, Variable.c_ne_a] using
    hlaw.instantiate₂ t u Variable.c_ne_a ht

theorem derives_product_zero (t : Term) :
    Derives p given 2 (.equality (.product t .zero) .zero) := by
  have hlaw : Derives p given 1 (.forAll .a (.equality (.product .a .zero) .zero)) :=
    .postulate 3 (by decide +kernel) (by decide)
  simpa using hlaw.instantiate t

theorem derives_product_succ (t u : Term) (ht : .c ∉ t.occurrences) :
    Derives p given 3 (.equality (.product t (.succ u)) (.sum (.product t u) t)) := by
  have hlaw : Derives p given 1 (.forAll .a (.forAll .c
      (.equality (.product .a (.succ .c)) (.sum (.product .a .c) .a)))) :=
    .postulate 4 (by decide +kernel) (by decide)
  simpa [Term.replace_eq_self ht, Variable.c_ne_a] using
    hlaw.instantiate₂ t u Variable.c_ne_a ht

/-- Zero may be added on the left. -/
theorem derives_zero_sum : Derives none given 13 (.forAll .a (.equality (.sum .zero .a) .a)) := by
  have hbase : Derives none given 2 (.equality (.sum .zero .zero) .zero) := derives_sum_zero .zero
  have hstep : Derives (some (.equality (.sum .zero .a) .a)) (.equality (.sum .zero .a) .a :: given)
      5 (.equality (.sum .zero (.succ .a)) (.succ .a)) :=
    (derives_sum_succ _ _ List.not_mem_nil).transitivity
      (Derives.of_mem (List.mem_cons_self ..)).successor
  exact hbase.induction .a hstep

/-- A successor may be added on the left. -/
def succSum : Formula :=
  .forAll .a (.forAll .b (.equality (.sum (.succ .a) .b) (.succ (.sum .a .b))))

theorem derives_succSum : Derives none given 25 succSum := by
  have hbase : Derives none given 7 (.equality (.sum (.succ .a) .zero) (.succ (.sum .a .zero))) :=
    (derives_sum_zero _).transitivity (derives_sum_zero _).successor.symmetry
  have hstep : Derives (some (.equality (.sum (.succ .a) .b) (.succ (.sum .a .b))))
      (.equality (.sum (.succ .a) .b) (.succ (.sum .a .b)) :: given) 11
      (.equality (.sum (.succ .a) (.succ .b)) (.succ (.sum .a (.succ .b)))) :=
    ((derives_sum_succ _ _ (by decide)).transitivity
      (Derives.of_mem (List.mem_cons_self ..)).successor).transitivity
        (derives_sum_succ _ _ (by decide)).successor.symmetry
  exact (hbase.induction .b hstep).generalize .a (by decide)

theorem derives_succ_sum (h : succSum ∈ given) (t u : Term) (ht : .b ∉ t.occurrences) :
    Derives p given 2 (.equality (.sum (.succ t) u) (.succ (.sum t u))) := by
  have hlaw : Derives p given 0 succSum := .of_mem h
  simpa [Term.replace_eq_self ht, Variable.b_ne_a] using
    hlaw.instantiate₂ t u Variable.b_ne_a ht

/-- Adding a numeral is taking successors. -/
def sumNumeral (k : Nat) : Formula := .forAll .a (.equality (.sum .a (.numeral k)) (.succ^[k] .a))

/-- In the step the successor is taken last, and has to become the first one. -/
theorem derives_sumNumeral (k : Nat) : Derives none given 49 (sumNumeral k) := by
  suffices h : Derives none (succSum :: given) 24 (sumNumeral k) from derives_succSum.cut h
  have hbase : Derives none (succSum :: given) 14
      (.equality (.sum .zero (.numeral k)) (.numeral k)) := by
    simpa using derives_zero_sum.instantiate (.numeral k)
  have hstep : Derives (some (.equality (.sum .a (.numeral k)) (.succ^[k] .a)))
      (.equality (.sum .a (.numeral k)) (.succ^[k] .a) :: succSum :: given) 4
      (.equality (.sum (.succ .a) (.numeral k)) (.succ (.succ^[k] .a))) :=
    (derives_succ_sum (by simp) _ _ (by decide)).transitivity
      (Derives.of_mem (List.mem_cons_self ..)).successor
  refine Derives.induction .a (c := 14) (k := 4) ?_ ?_
  · simpa [Term.numeral_eq_iterate] using hbase
  · rw [← Function.iterate_succ_apply' Term.succ, Function.iterate_succ_apply] at hstep
    simpa using hstep

/-- Adding a numeral to a term. -/
theorem derives_sum_numeral (t : Term) (k : Nat) :
    Derives none given 50 (.equality (.sum t (.numeral k)) (.succ^[k] t)) := by
  simpa using (derives_sumNumeral k).instantiate t

/-- The same number may be added to equal terms. -/
theorem Derives.sum_congr (h : Derives none given k (.equality t u)) (ht : .c ∉ t.occurrences)
    (hu : .c ∉ u.occurrences) :
    Derives none given (k + 23) (.forAll .c (.equality (.sum t .c) (.sum u .c))) := by
  have hbase : Derives none given (k + 7) (.equality (.sum t .zero) (.sum u .zero)) :=
    (((derives_sum_zero t).transitivity h).transitivity (derives_sum_zero u).symmetry).mono
      (by omega)
  have hstep : Derives (some (.equality (.sum t .c) (.sum u .c)))
      (.equality (.sum t .c) (.sum u .c) :: given) 10
      (.equality (.sum t (.succ .c)) (.sum u (.succ .c))) :=
    ((derives_sum_succ t .c ht).transitivity
      (Derives.of_mem (List.mem_cons_self ..)).successor).transitivity
        (derives_sum_succ u .c hu).symmetry
  refine (Derives.induction .c (c := k + 7) (k := 10) ?_ ?_)
  · simpa [Term.replace_eq_self ht, Term.replace_eq_self hu] using hbase
  · simpa [Term.replace_eq_self ht, Term.replace_eq_self hu] using hstep

/-- As many successors may be taken of equal terms. -/
theorem Derives.raise (h : Derives none given k (.equality t u)) (ht : .c ∉ t.occurrences)
    (hu : .c ∉ u.occurrences) (j : Nat) :
    Derives none given (k + 127) (.equality (.succ^[j] t) (.succ^[j] u)) := by
  have hsum : Derives none given (k + 24)
      (.equality (.sum t (.numeral j)) (.sum u (.numeral j))) := by
    simpa [Term.replace_eq_self ht, Term.replace_eq_self hu] using
      (h.sum_congr ht hu).instantiate (.numeral j)
  exact (((derives_sum_numeral t j).symmetry.transitivity hsum).transitivity
    (derives_sum_numeral u j)).mono (by omega)

/-- Multiplying a numeral by a term with successors. -/
def productRaised (m k : Nat) : Formula :=
  .forAll .b (.equality (.product (.numeral m) (.succ^[k] .b))
    (.succ^[m * k] (.product (.numeral m) .b)))

theorem notMem_product (m k : Nat) :
    .c ∉ (Term.product (.numeral m) (.succ^[k] .b)).occurrences := by
  rw [Term.occurrences, Term.occurrences_numeral, Term.occurrences_iterate_succ]
  decide

theorem derives_productRaised_zero (m : Nat) : Derives none given 7 (productRaised m 0) := by
  have hself : Derives none given 6 (.equality (.product (.numeral m) .b)
      (.product (.numeral m) .b)) :=
    (derives_sum_zero _).symmetry.transitivity (derives_sum_zero _)
  exact hself.generalize .b List.not_mem_nil

theorem derives_productRaised_one (m : Nat) : Derives none given 55 (productRaised m 1) := by
  have hone : Derives none given 54 (.equality (.product (.numeral m) (.succ .b))
      (.succ^[m] (.product (.numeral m) .b))) :=
    (derives_product_succ (.numeral m) .b (by simp)).transitivity (derives_sum_numeral _ m)
  rw [productRaised, Nat.mul_one]
  exact hone.generalize .b List.not_mem_nil

/-- Successors may be taken in two portions. -/
theorem derives_productRaised_add (hj : productRaised m j ∈ given)
    (hk : productRaised m k ∈ given) : Derives none given 131 (productRaised m (j + k)) := by
  have hfirst : Derives none given 0 (productRaised m j) := .of_mem hj
  have hsecond : Derives none given 0 (productRaised m k) := .of_mem hk
  have houter : Derives none given 1 (.equality
      (.product (.numeral m) (.succ^[j] (.succ^[k] .b)))
      (.succ^[m * j] (.product (.numeral m) (.succ^[k] .b)))) := by
    simpa using hfirst.instantiate (.succ^[k] .b)
  have hinner : Derives none given 1 (.equality (.product (.numeral m) (.succ^[k] .b))
      (.succ^[m * k] (.product (.numeral m) .b))) := by
    simpa using hsecond.instantiate .b
  have hright : .c ∉ (Term.succ^[m * k] (.product (.numeral m) .b)).occurrences := by
    rw [Term.occurrences_iterate_succ]
    exact notMem_product m 0
  have hraised := hinner.raise (notMem_product m k) hright (m * j)
  have hboth := (houter.transitivity hraised).generalize .b List.not_mem_nil
  simpa [productRaised, ← Function.iterate_add_apply, Nat.mul_add] using hboth

/-- A number is put together from its binary digits. -/
theorem derives_productRaised (m : Nat) {n digits : Nat} (hn : n < 2 ^ digits) :
    Derives none given (7 + 317 * digits) (productRaised m n) := by
  induction digits generalizing n with
  | zero =>
    obtain rfl : n = 0 := by simpa using hn
    exact derives_productRaised_zero m
  | succ digits ih =>
    have hhalf : n / 2 < 2 ^ digits := by
      rw [Nat.pow_succ] at hn
      omega
    have hdouble : Derives none given (7 + 317 * digits + 131) (productRaised m (n / 2 + n / 2)) :=
      (ih hhalf).cut (derives_productRaised_add (List.mem_cons_self ..) (List.mem_cons_self ..))
    rcases Nat.mod_two_eq_zero_or_one n with heven | hodd
    · have hsum : n / 2 + n / 2 = n := by omega
      rw [hsum] at hdouble
      exact hdouble.mono (by omega)
    · have hsum : n / 2 + n / 2 + 1 = n := by omega
      have hone : Derives none (productRaised m (n / 2 + n / 2) :: given) (55 + 131)
          (productRaised m (n / 2 + n / 2 + 1)) :=
        (derives_productRaised_one m).cut (derives_productRaised_add
          (List.mem_cons_of_mem _ (List.mem_cons_self ..)) (List.mem_cons_self ..))
      rw [hsum] at hone
      exact (hdouble.cut hone).mono (by omega)

theorem derives_product_numeral (m n : Nat) :
    Derives none given (317 * n.size + 138) (.equality (.product (.numeral m) (.numeral n))
      (.numeral (m * n))) := by
  have hlaw : Derives none given (7 + 317 * n.size) (productRaised m n) :=
    derives_productRaised m (Nat.lt_size_self n)
  have hraised : Derives none given (7 + 317 * n.size + 1) (.equality
      (.product (.numeral m) (.numeral n)) (.succ^[m * n] (.product (.numeral m) .zero))) := by
    simpa [Term.numeral_eq_iterate n] using hlaw.instantiate .zero
  have hzero : .c ∉ (Term.product (.numeral m) .zero).occurrences := by
    simp [Term.occurrences]
  have hvalue : Derives none given 129 (.equality (.succ^[m * n] (.product (.numeral m) .zero))
      (.numeral (m * n))) := by
    rw [Term.numeral_eq_iterate (m * n)]
    exact (derives_product_zero (.numeral m)).raise hzero List.not_mem_nil (m * n)
  exact (hraised.transitivity hvalue).mono (by omega)

theorem derives_sum_numerals (m n : Nat) :
    Derives none given 50 (.equality (.sum (.numeral m) (.numeral n)) (.numeral (m + n))) := by
  rw [Nat.add_comm m n, Term.numeral_eq_iterate (n + m), Function.iterate_add_apply,
    ← Term.numeral_eq_iterate m]
  exact derives_sum_numeral (.numeral m) n

/-- Moves that all succeed lead from the axioms of arithmetic to a formula, which is
the last theorem and stands under no supposition. -/
def Proves (title : String) (f : Formula) : Prop :=
  ∃ moves d s, (start title Axioms.peano).perform moves = .ok d ∧
    d.steps.getLast? = some s ∧ s.formula = f ∧ s.depth = 0

theorem Derives.proves (h : Derives none [] k (.equality l r)) (hroom : k + 2 ≤ UInt64.size)
    (title : String) : Proves title (.equality l r) := by
  obtain ⟨moves, d, s, hleads, hlast, hformula, hdepth⟩ :=
    h.last (arithmetical_start title) rfl (fun _ hg => absurd hg List.not_mem_nil)
      (by change 0 + k + 2 ≤ _; omega)
  refine ⟨moves, d, s, hleads.performed, ?_, hformula, ?_⟩
  · rw [List.getLast?_eq_getElem?]
    exact hlast
  · rw [hdepth, hleads.scopes]
    rfl

/-- Sums and products of numerals can be calculated: from the axioms of arithmetic
moves that all succeed lead to the sum, or to the product, as a theorem that comes
last and stands under no supposition. The moves of a sum are always as many; those
of a product grow with the binary digits of the second factor, and no move can
name more than the first `2 ^ 64` theorems. So there may be `2 ^ 55` such digits,
while a number of 64 bits has 64 of them. -/
theorem numerals_calculated (title : String) (m n : Nat) :
    Proves title (.equality (.sum (.numeral m) (.numeral n)) (.numeral (m + n))) ∧
    (n.size ≤ 2 ^ 55 →
      Proves title (.equality (.product (.numeral m) (.numeral n)) (.numeral (m * n)))) := by
  refine ⟨(derives_sum_numerals m n).proves (by decide) title, fun hn => ?_⟩
  refine (derives_product_numeral m n).proves ?_ title
  change 317 * n.size + 138 + 2 ≤ 2 ^ 64
  omega

/-- Two plus three and two times three. -/
theorem numerals_calculated_two_three :
    Proves "" (.equality (.sum (.numeral 2) (.numeral 3)) (.numeral 5)) ∧ Nat.size 3 ≤ 2 ^ 55 ∧
      Proves "" (.equality (.product (.numeral 2) (.numeral 3)) (.numeral 6)) := by
  have hsize : Nat.size 3 ≤ 2 ^ 55 := by
    have htwo : Nat.size 3 ≤ 2 := Nat.size_le.mpr (by decide)
    omega
  exact ⟨(numerals_calculated "" 2 3).1, hsize, (numerals_calculated "" 2 3).2 hsize⟩

end Deduction

end Typographical
