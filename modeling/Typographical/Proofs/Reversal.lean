import Typographical.Proofs.Formation
import Typographical.Proofs.Occurrences

/-!
# Rules that can be undone

Some rules lead back and forth between two formulas, and what one of them gives
another one, or the same one, turns back into the theorem that it came from. For
the rules that change one of several occurrences the difficulty is to name the
occurrence. The changed subformula stays at its position, but its number is that
among the matches of the other rule, and these may stand anywhere before it.

Occurrences are numbered by words. So a formula with more subformulas than there
are words has occurrences that no rule can be applied to.
-/

namespace Typographical

namespace Formula

variable {change back : Formula → Option Formula} {f g x y : Formula} {p : Position} {k n : Nat}

/-- The positions within a part are those of the part, between others that do not
depend on it. -/
theorem positions_fill (c : Frame) : ∃ before behind : List Position,
    (∀ f, (c.fill f).positions = [] :: (before ++ (f.positions.map (c.branch :: ·) ++ behind))) ∧
    ∀ p, c.branch :: p ∉ before ∧ c.branch :: p ∉ behind := by
  cases c with
  | neg => exact ⟨[], [], fun f => by simp [Frame.fill, Frame.branch, positions], by simp⟩
  | quantified q v =>
    exact ⟨[], [], fun f => by simp [Frame.fill, Frame.branch, positions], by simp⟩
  | left op r =>
    exact ⟨[], r.positions.map (.right :: ·), fun f => by simp [Frame.fill, Frame.branch, positions],
      by simp [Frame.branch]⟩
  | right op l =>
    exact ⟨l.positions.map (.left :: ·), [], fun f => by simp [Frame.fill, Frame.branch, positions],
      by simp [Frame.branch]⟩

theorem getElem?_positions_nil : f.positions[n]? = some [] ↔ n = 0 := by
  constructor
  · intro h
    obtain ⟨rest, hrest⟩ : ∃ rest, f.positions = [] :: rest := by
      cases f <;> exact ⟨_, rfl⟩
    have hsorted := pairwise_positions f
    rw [hrest] at h hsorted
    cases n with
    | zero => rfl
    | succ n => cases (List.pairwise_cons.mp hsorted).1 [] (List.mem_of_getElem? h)
  · rintro rfl
    cases f <;> rfl

/-- Whatever is put at a position, as many subformulas begin before it. -/
theorem getElem?_positions_put (h : f.positions[n]? = some p) (y : Formula) :
    (f.put p y).positions[n]? = some p := by
  induction p generalizing f n with
  | nil =>
    rw [put_nil]
    exact getElem?_positions_nil.mpr (getElem?_positions_nil.mp h)
  | cons b p ih =>
    obtain ⟨x, hx⟩ := mem_positions_iff.mp (List.mem_of_getElem? h)
    obtain ⟨c, g, rfl, rfl, -⟩ := exists_fill_of_at? hx
    obtain ⟨before, behind, hpositions, hother⟩ := positions_fill c
    rw [put_fill, hpositions]
    rw [hpositions] at h
    cases n with
    | zero => cases h
    | succ n =>
      rw [List.getElem?_cons_succ, List.getElem?_append] at h ⊢
      split at h
      · exact absurd (List.mem_of_getElem? h) (hother p).1
      · next hbefore =>
        rw [if_neg hbefore]
        rw [List.getElem?_append] at h
        split at h
        · have hg : g.positions[n - before.length]? = some p := by simpa using h
          have hput := ih hg
          have hlt := (List.getElem?_eq_some_iff.mp hput).1
          rw [List.getElem?_append_left (by simpa using hlt), List.getElem?_map, hput]
          rfl
        · exact absurd (List.mem_of_getElem? h) (hother p).2

/-- What is kept of a list is not further back than it was. -/
theorem exists_getElem?_filter {α : Type} {l : List α} {a : α} {P : α → Bool}
    (h : l[n]? = some a) (ha : P a = true) : ∃ k ≤ n, (l.filter P)[k]? = some a := by
  obtain ⟨hn, rfl⟩ := List.getElem?_eq_some_iff.mp h
  refine ⟨((l.take n).filter P).length, ?_, ?_⟩
  · exact (List.length_filter_le ..).trans (List.length_take_le ..)
  · have hsplit : l = l.take n ++ l[n] :: l.drop (n + 1) := by simp
    have hfilter : l.filter P = (l.take n).filter P ++ l[n] :: (l.drop (n + 1)).filter P := by
      nth_rewrite 1 [hsplit]
      rw [List.filter_append, List.filter_cons, if_pos ha]
    rw [hfilter, List.getElem?_append_right (Nat.le_refl _), Nat.sub_self]
    rfl

/-- A change at the position that comes as number `n` among all positions can be
undone, and the number of the match that has to be changed back is not greater. -/
theorem exists_alterNth?_put (hn : f.positions[n]? = some p) (here : f.at? p = some x)
    (applies : back y = some x) : ∃ k ≤ n, (f.put p y).alterNth? back k = some f := by
  have hy := at?_put here y
  obtain ⟨k, hk, hsite⟩ := exists_getElem?_filter
    (P := fun p' => (((f.put p y).at? p').bind back).isSome) (getElem?_positions_put hn y)
    (by rw [hy]; simp [applies])
  exact ⟨k, hk, alterNth?_eq_some_iff.mpr ⟨p, y, x, hsite, hy, applies, (put_put here y).symm⟩⟩

/-- A changed formula can be changed back, at a number that is less than the number
of its subformulas. -/
theorem exists_alterNth?_back (h : f.alterNth? change n = some g)
    (inverse : ∀ x y, change x = some y → back y = some x) :
    ∃ k < g.positions.length, g.alterNth? back k = some f := by
  obtain ⟨p, x, y, nth, here, applies, rfl⟩ := alterNth?_eq_some_iff.mp h
  obtain ⟨i, hi⟩ := List.mem_iff_getElem?.mp (mem_positions_iff.mpr ⟨x, here⟩)
  obtain ⟨k, hk, hback⟩ := exists_alterNth?_put hi here (inverse x y applies)
  have hlt := (List.getElem?_eq_some_iff.mp (getElem?_positions_put hi y)).1
  exact ⟨k, by omega, hback⟩

end Formula

namespace Inference

variable {f g x y : Formula} {v : Variable} {n m k : UInt64}

theorem negatedThereIs_eq_some_iff : negatedThereIs v x = some y ↔
    ∃ f, x = .neg (.thereIs v f) ∧ y = .forAll v (.neg f) := by
  constructor
  · intro h
    unfold negatedThereIs at h
    split at h
    · split at h
      · next hw =>
        cases h
        exact ⟨_, by rw [hw], rfl⟩
      · cases h
    · cases h
  · rintro ⟨f, rfl, rfl⟩
    simp [negatedThereIs]

theorem forAllNegated_eq_some_iff : forAllNegated v x = some y ↔
    ∃ f, x = .forAll v (.neg f) ∧ y = .neg (.thereIs v f) := by
  constructor
  · intro h
    unfold forAllNegated at h
    split at h
    · split at h
      · next hw =>
        cases h
        exact ⟨_, by rw [hw], rfl⟩
      · cases h
    · cases h
  · rintro ⟨f, rfl, rfl⟩
    simp [forAllNegated]

theorem forAllNegated_of_negatedThereIs (h : negatedThereIs v x = some y) :
    forAllNegated v y = some x := by
  obtain ⟨f, rfl, rfl⟩ := negatedThereIs_eq_some_iff.mp h
  exact forAllNegated_eq_some_iff.mpr ⟨f, rfl, rfl⟩

theorem negatedThereIs_of_forAllNegated (h : forAllNegated v x = some y) :
    negatedThereIs v y = some x := by
  obtain ⟨f, rfl, rfl⟩ := forAllNegated_eq_some_iff.mp h
  exact negatedThereIs_eq_some_iff.mpr ⟨f, rfl, rfl⟩

theorem doubleNegation_of_without (h : withoutDoubleNegation x = some y) :
    doubleNegation y = some x := by
  unfold withoutDoubleNegation at h
  split at h
  · cases h
    rfl
  · cases h

theorem alterOccurrence_eq_ok_iff {change : Formula → Option Formula} {complaint : Cause} :
    alterOccurrence change k complaint f = .ok g ↔ f.alterNth? change k.toNat = some g := by
  unfold alterOccurrence
  split
  · next h => simp [h]
  · next h => simp [h]

/-- An occurrence that has a number is reached by a word if there are enough words. -/
theorem exists_alterOccurrence {change : Formula → Option Formula} {j : Nat}
    (h : f.alterNth? change j = some g) (hj : j < UInt64.size) :
    ∃ k, ∀ complaint, alterOccurrence change k complaint f = .ok g := by
  have hword : (UInt64.ofNat j).toNat = j := UInt64.toNat_ofNat_of_lt hj
  refine ⟨UInt64.ofNat j, fun complaint => alterOccurrence_eq_ok_iff.mpr ?_⟩
  rwa [hword]

/-- A changed occurrence can be changed back, provided that the occurrences of the
new formula can be numbered. -/
theorem exists_alterOccurrence_back {change back : Formula → Option Formula} {complaint : Cause}
    (h : alterOccurrence change k complaint f = .ok g)
    (inverse : ∀ x y, change x = some y → back y = some x)
    (numbered : g.positions.length ≤ UInt64.size) :
    ∃ k', ∀ complaint', alterOccurrence back k' complaint' g = .ok f := by
  obtain ⟨j, hj, hback⟩ := Formula.exists_alterNth?_back (alterOccurrence_eq_ok_iff.mp h) inverse
  exact exists_alterOccurrence hback (Nat.lt_of_lt_of_le hj numbered)

/-- Every subformula can be doubly negated, so no more double negations than the
number of the occurrence says begin before it, and they can always be numbered. -/
theorem exists_withoutDoubleNegation {complaint : Cause}
    (h : alterOccurrence doubleNegation k complaint f = .ok g) :
    ∃ k', ∀ complaint', alterOccurrence withoutDoubleNegation k' complaint' g = .ok f := by
  obtain ⟨p, x, y, nth, here, applies, rfl⟩ :=
    Formula.alterNth?_eq_some_iff.mp (alterOccurrence_eq_ok_iff.mp h)
  have hsites : f.sites doubleNegation = f.positions := by
    rw [Formula.sites, List.filter_eq_self]
    intro p hp
    obtain ⟨x, hx⟩ := Formula.mem_positions_iff.mp hp
    rw [hx]
    rfl
  have hback : withoutDoubleNegation y = some x := by
    cases applies
    rfl
  rw [hsites] at nth
  obtain ⟨j, hj, halter⟩ := Formula.exists_alterNth?_put nth here hback
  exact exists_alterOccurrence halter (Nat.lt_of_le_of_lt hj k.toNat_lt)

theorem precede_of_succeed (h : succeed n f = .ok g) : precede m g = .ok f := by
  obtain ⟨⟨l, r⟩, hsides, rfl⟩ := map_eq_ok_iff.mp h
  obtain rfl := sides_eq_ok_iff.mp hsides
  rfl

theorem succeed_of_precede (h : precede n f = .ok g) : succeed m g = .ok f := by
  obtain ⟨⟨l, r⟩, hsides, hg⟩ := bind_eq_ok_iff.mp h
  obtain rfl := sides_eq_ok_iff.mp hsides
  split at hg
  · next heq =>
    cases heq
    cases hg
    rfl
  · cases hg

theorem flip_of_flip (h : flip n f = .ok g) : flip m g = .ok f := by
  obtain ⟨⟨l, r⟩, hsides, rfl⟩ := map_eq_ok_iff.mp h
  obtain rfl := sides_eq_ok_iff.mp hsides
  rfl

theorem exchangeDeMorgan_back (h : exchangeDeMorgan n f = .ok g) :
    exchangeDeMorgan m g = .ok f := by
  unfold exchangeDeMorgan at h
  split at h
  · cases h
    rfl
  · cases h
    rfl
  · cases h

theorem exchangeSwitcheroo_back (h : exchangeSwitcheroo n f = .ok g) :
    exchangeSwitcheroo m g = .ok f := by
  unfold exchangeSwitcheroo at h
  split at h
  · cases h
    rfl
  · cases h
    rfl
  · cases h

/-- Putting a variable in place of itself takes its quantifier away. -/
theorem specify_var_eq_ok_iff : specify n v (.var v) f = .ok g ↔ f = .forAll v g := by
  have hnone : ∀ body : Formula, (Term.var v).vars.toList.find?
      (fun u => u ≠ v && body.boundVars.contains u) = none := by
    intro body
    rw [List.find?_eq_none]
    intro u hu
    rw [← SortedSet.mem_def, Term.mem_vars, Term.occurrences, List.mem_singleton] at hu
    simp [hu]
  constructor
  · intro h
    unfold specify at h
    split at h
    · next w body =>
      split at h
      · next hw =>
        subst hw
        dsimp only at h
        rw [hnone, Formula.substitute_self] at h
        cases h
        rfl
      · cases h
    · cases h
  · rintro rfl
    rw [specify, if_pos rfl]
    dsimp only
    rw [hnone, Formula.substitute_self]

theorem generalize_eq_ok_iff {premise : Option Formula} : generalize n v premise f = .ok g ↔
    v ∉ f.boundVars ∧ (∀ p, premise = some p → v ∉ p.freeVars) ∧ .forAll v f = g := by
  by_cases hbound : v ∈ f.boundVars
  · simp [generalize, hbound]
  · cases premise with
    | none => simp [generalize, hbound]
    | some p => by_cases hfree : v ∈ p.freeVars <;> simp [generalize, hbound, hfree]

end Inference

namespace Deduction

variable {d d' : Deduction} {f g : Formula} {i j : Inference} {n m : UInt64} {s : Step}
  {rule : Formula → Except Cause Formula}

theorem Coherent.closed_of_depth (hc : d.Coherent) (hdepth : d.depth = 0) : d.Closed := by
  rcases hc with hclosed | ⟨origin, hopen⟩
  · exact hclosed
  · rw [depth, hopen.scopes] at hdepth
    cases hdepth

section Back

variable (hc : d.Coherent) (hd : ∀ s ∈ d.steps, s.formula.WellQuantified)
  (happly : d.apply (.infer i) = .ok (g, d')) (hi : i.rule ≠ .joining)

include hc hd happly hi

/-- A rule for one theorem that succeeds was applied to the theorem that it names. -/
theorem rule_of_apply (hs : d.steps[n.toNat]? = some s)
    (hrule : i.conclude d.use d.openPremise = d.use n >>= rule) : rule s.formula = .ok g := by
  obtain ⟨hconclude, -⟩ := (apply_infer_eq_ok_iff hc hd hi).mp happly
  rw [hrule] at hconclude
  obtain ⟨f, huse, hf⟩ := bind_eq_ok_iff.mp hconclude
  obtain ⟨s', hs', rfl, -⟩ := (use_eq_ok_iff hc).mp huse
  cases hs.symm.trans hs'
  exact hf

/-- What a rule gives can be used by a rule for one theorem, under the same premise. -/
theorem apply_of_rule (hm : m.toNat = d.size) (hj : j.rule ≠ .joining)
    (hrule : ∀ use, j.conclude use d.openPremise = use m >>= rule) (hg : rule g = .ok f) :
    ∃ d'', d'.apply (.infer j) = .ok (f, d'') := by
  obtain ⟨-, rfl⟩ := (apply_infer_eq_ok_iff hc hd hi).mp happly
  have hm' : d.Granted (.infer i) g _ := (apply_eq_ok_iff hc).mp happly
  have hc' := hm'.coherent hc
  have hd' : ∀ s ∈ (d.extended d.scopes g (.inferred i)).steps, s.formula.WellQuantified := by
    intro s hs
    rcases mem_steps_extended.mp hs with hs | rfl
    · exact hd s hs
    · exact Formula.checkWellFormed_iff.mp hm'.wellFormed
  refine ⟨_, (apply_infer_eq_ok hc' hd' hj ?_).2⟩
  rw [openPremise_extended hc, hrule, use_extended hc' hm]
  exact hg

end Back

/-- What a two-way rule gives, as theorem number `m`, is turned back by another
application of a rule into the theorem that it came from. Where one of several
occurrences is changed, some number names the occurrence that has to be changed
back. For all but the removal of a double negation this asks that the occurrences
in the new theorem can be numbered at all. -/
theorem two_way_rules (title : String) (axioms : List Formula) (moves : List Move)
    (n m : UInt64) (s : Step) (g : Formula) (d' : Deduction) :
    let d := (start title axioms).run moves
    let gives (i : Inference) := d.apply (.infer i) = .ok (g, d')
    let undoes (j : Inference) := ∃ d'', d'.apply (.infer j) = .ok (s.formula, d'')
    let numbered := g.positions.length ≤ UInt64.size
    d.steps[n.toNat]? = some s → m.toNat = d.size →
    (∀ v k, gives (.interchangeEA n v k) → numbered → ∃ k', undoes (.interchangeAE m v k')) ∧
    (∀ v k, gives (.interchangeAE n v k) → numbered → ∃ k', undoes (.interchangeEA m v k')) ∧
    (∀ k, gives (.addDoubleTilde n k) → ∃ k', undoes (.removeDoubleTilde m k')) ∧
    (∀ k, gives (.removeDoubleTilde n k) → numbered → ∃ k', undoes (.addDoubleTilde m k')) ∧
    (gives (.successor n) → undoes (.predecessor m)) ∧
    (gives (.predecessor n) → undoes (.successor m)) ∧
    (gives (.symmetry n) → undoes (.symmetry m)) ∧
    (gives (.deMorgan n) → undoes (.deMorgan m)) ∧
    (gives (.switcheroo n) → undoes (.switcheroo m)) ∧
    (∀ v, gives (.generalization n v) → undoes (.specification m v (.var v))) ∧
    (∀ v, gives (.specification n v (.var v)) →
      (d.depth = 0 ∨ ∃ p, d.openPremise = .ok (some p) ∧ v ∉ p.freeVars) →
      undoes (.generalization m v)) := by
  intro d gives undoes numbered hs hm
  obtain ⟨hc, hd⟩ := wellQuantified_run title axioms moves
  have source : ∀ {i rule}, gives i → i.rule ≠ .joining →
      i.conclude d.use d.openPremise = d.use n >>= rule → rule s.formula = .ok g :=
    fun h hi => rule_of_apply hc hd h hi hs
  have back : ∀ {i j rule}, gives i → i.rule ≠ .joining → j.rule ≠ .joining →
      (∀ use, j.conclude use d.openPremise = use m >>= rule) → rule g = .ok s.formula → undoes j :=
    fun h hi hj => apply_of_rule hc hd h hi hm hj
  have undone : ∀ {i j rule rule'}, i.rule ≠ .joining → j.rule ≠ .joining →
      i.conclude d.use d.openPremise = d.use n >>= rule →
      (∀ use, j.conclude use d.openPremise = use m >>= rule') →
      (∀ {f g}, rule f = .ok g → rule' g = .ok f) → gives i → undoes j :=
    fun hi hj hfrom hto inverse h => back h hi hj hto (inverse (source h hi hfrom))
  refine ⟨?_, ?_, ?_, ?_, ?_, ?_, ?_, ?_, ?_, ?_, ?_⟩
  · intro v k h hnumbered
    have hrule := source h (by rintro ⟨⟩) rfl
    obtain ⟨k', hk'⟩ := Inference.exists_alterOccurrence_back hrule
      (fun _ _ => Inference.forAllNegated_of_negatedThereIs) hnumbered
    exact ⟨k', back h (by rintro ⟨⟩) (by rintro ⟨⟩) (fun _ => rfl) (hk' _)⟩
  · intro v k h hnumbered
    have hrule := source h (by rintro ⟨⟩) rfl
    obtain ⟨k', hk'⟩ := Inference.exists_alterOccurrence_back hrule
      (fun _ _ => Inference.negatedThereIs_of_forAllNegated) hnumbered
    exact ⟨k', back h (by rintro ⟨⟩) (by rintro ⟨⟩) (fun _ => rfl) (hk' _)⟩
  · intro k h
    have hrule := source h (by rintro ⟨⟩) rfl
    obtain ⟨k', hk'⟩ := Inference.exists_withoutDoubleNegation hrule
    exact ⟨k', back h (by rintro ⟨⟩) (by rintro ⟨⟩) (fun _ => rfl) (hk' _)⟩
  · intro k h hnumbered
    have hrule := source h (by rintro ⟨⟩) rfl
    obtain ⟨k', hk'⟩ := Inference.exists_alterOccurrence_back hrule
      (fun _ _ => Inference.doubleNegation_of_without) hnumbered
    exact ⟨k', back h (by rintro ⟨⟩) (by rintro ⟨⟩) (fun _ => rfl) (hk' _)⟩
  · exact undone (by rintro ⟨⟩) (by rintro ⟨⟩) rfl (fun _ => rfl) Inference.precede_of_succeed
  · exact undone (by rintro ⟨⟩) (by rintro ⟨⟩) rfl (fun _ => rfl) Inference.succeed_of_precede
  · exact undone (by rintro ⟨⟩) (by rintro ⟨⟩) rfl (fun _ => rfl) Inference.flip_of_flip
  · exact undone (by rintro ⟨⟩) (by rintro ⟨⟩) rfl (fun _ => rfl) Inference.exchangeDeMorgan_back
  · exact undone (by rintro ⟨⟩) (by rintro ⟨⟩) rfl (fun _ => rfl) Inference.exchangeSwitcheroo_back
  · intro v h
    have hrule := source h (by rintro ⟨⟩) rfl
    obtain ⟨premise, -, hgeneral⟩ := bind_eq_ok_iff.mp hrule
    obtain ⟨-, -, rfl⟩ := Inference.generalize_eq_ok_iff.mp hgeneral
    exact back h (by rintro ⟨⟩) (by rintro ⟨⟩) (fun _ => rfl)
      (Inference.specify_var_eq_ok_iff.mpr rfl)
  · intro v h hpremise
    have hrule := source h (by rintro ⟨⟩) rfl
    have hformula := Inference.specify_var_eq_ok_iff.mp hrule
    have hquantified := hd s (List.mem_of_getElem? hs)
    rw [hformula] at hquantified
    have hbound : v ∉ g.boundVars := fun hmem => hquantified.1 (Formula.mem_boundVars.mp hmem)
    obtain ⟨premise, hopen, hfree⟩ : ∃ premise, d.openPremise = .ok premise ∧
        ∀ p, premise = some p → v ∉ p.freeVars := by
      rcases hpremise with hdepth | ⟨p, hopen, hfree⟩
      · exact ⟨none, (hc.closed_of_depth hdepth).openPremise, by rintro p ⟨⟩⟩
      · exact ⟨some p, hopen, by rintro p ⟨⟩; exact hfree⟩
    have hgeneral := Inference.generalize_eq_ok_iff (n := m).mpr ⟨hbound, hfree, hformula.symm⟩
    exact back h (by rintro ⟨⟩) (by rintro ⟨⟩) (fun _ => rfl)
      (bind_eq_ok_iff.mpr ⟨premise, hopen, hgeneral⟩)

/-- An occurrence of the other kind stands before the one that is changed, so it
has another number afterwards. -/
theorem two_way_rules_interchange :
    let a := Variable.austere 0
    let known := Formula.forAll a (.neg (.equality (.succ (.var a)) .zero))
    let other := Formula.equality (.succ (.succ (.var a))) .zero
    let f := Formula.and known (.neg (.thereIs a other))
    let g := Formula.and known (.forAll a (.neg other))
    let d := (start "" Axioms.peano).run [.suppose f]
    let d' := d.extended d.scopes g (.inferred (.interchangeEA 0 a 0))
    d.steps[(0 : UInt64).toNat]? = some ⟨f, .supposed, 1, 0⟩ ∧ (1 : UInt64).toNat = d.size ∧
    d.apply (.infer (.interchangeEA 0 a 0)) = .ok (g, d') ∧ g.positions.length ≤ UInt64.size ∧
    ∃ k' d'', d'.apply (.infer (.interchangeAE 1 a k')) = .ok (f, d'') := by
  intro a known other f g d d'
  have hs : d.steps[(0 : UInt64).toNat]? = some ⟨f, .supposed, 1, 0⟩ := by decide
  have hm : (1 : UInt64).toNat = d.size := by decide
  obtain ⟨hc, hd⟩ := wellQuantified_run "" Axioms.peano [.suppose f]
  have happly : d.apply (.infer (.interchangeEA 0 a 0)) = .ok (g, d') :=
    (apply_infer_eq_ok hc hd (by rintro ⟨⟩) (by decide)).2
  have hnumbered : g.positions.length ≤ UInt64.size := by decide
  exact ⟨hs, hm, happly, hnumbered,
    (two_way_rules "" Axioms.peano [.suppose f] 0 1 _ g d' hs hm).1 a 0 happly hnumbered⟩

end Deduction

end Typographical
