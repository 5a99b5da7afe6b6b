import Typographical.Proofs.Acceptance

/-!
# Steps of a script and theorems of its deduction

The references of a script are numbers of theorems, and whoever writes a script
counts its steps. That the two numberings are the same is shown here: a step that
passes adds one theorem, and the first step that fails ends the run, with its own
theorem in the log if nothing but its announcement was wrong.

The steps before the one that fails are described by an inductive relation. A
run is such a passage, followed by at most one step that fails.
-/

namespace Typographical

namespace Script

/-- A step spells out a move that gives a theorem and leads to a deduction. -/
def Step.Establishes (s : Step) (d : Deduction) (f : Formula) (d' : Deduction) : Prop :=
  ∃ m, s.move = .ok m ∧ d.apply m = .ok (f, d')

/-- Steps that lead from one deduction to another, each of which establishes what
it announces. -/
inductive Passed : List Step → Deduction → Deduction → Prop
  | nil {d : Deduction} : Passed [] d d
  | cons {s : Step} {rest : List Step} {f : Formula} {d d₁ d₂ : Deduction}
      (established : s.Establishes d f d₁) (met : s.meets f = .ok ())
      (more : Passed rest d₁ d₂) : Passed (s :: rest) d d₂

def cutOff (s : Script) (m : Nat) : Script := { s with steps := s.steps.take m }

def after (s : Script) (axioms : List Formula) (m : Nat) : Deduction :=
  ((s.cutOff m).run axioms).1

variable {s : Step} {steps : List Step} {f : Formula} {d d' d₁ : Deduction} {index : Nat}

theorem Step.Establishes.granted (h : s.Establishes d f d') (hc : d.Coherent) :
    ∃ m, d.Granted m f d' := by
  obtain ⟨m, -, happly⟩ := h
  exact ⟨m, (Deduction.apply_eq_ok_iff hc).mp happly⟩

/-- A step that passes gives the theorem it announces. -/
theorem Step.perform_eq_none_iff :
    s.perform d = (d', none) ↔ ∃ f, s.Establishes d f d' ∧ s.meets f = .ok () := by
  unfold perform Establishes
  constructor
  · intro h
    split at h
    · cases h
    · next m hm =>
      split at h
      · cases h
      · next f d₁ happly =>
        split at h
        · cases h
        · next hmeets =>
          cases h
          exact ⟨f, ⟨m, hm, happly⟩, hmeets⟩
  · rintro ⟨f, ⟨m, hm, happly⟩, hmeets⟩
    simp only [hm, happly, hmeets]

/-- A step that fails leaves the deduction as it is, unless its theorem is
another one than announced. -/
theorem Step.perform_eq_some {c : StepFailure} (h : s.perform d = (d', some c)) :
    (∃ f, s.Establishes d f d' ∧ s.meets f = .error c) ∨
      (∀ f d₁, ¬ s.Establishes d f d₁) ∧ d' = d := by
  unfold perform at h
  unfold Establishes
  split at h
  · next e hm =>
    cases h
    refine Or.inr ⟨?_, rfl⟩
    rintro f d₁ ⟨m, hm', -⟩
    cases hm.symm.trans hm'
  · next m hm =>
    split at h
    · next e happly =>
      cases h
      refine Or.inr ⟨?_, rfl⟩
      rintro f d₁ ⟨m', hm', happly'⟩
      cases hm.symm.trans hm'
      cases happly.symm.trans happly'
    · next f d₁ happly =>
      split at h
      · next e hmeets =>
        cases h
        exact Or.inl ⟨f, ⟨m, hm, happly⟩, hmeets⟩
      · cases h

/-- An announcement is missed if it cannot be read, or if it is not the theorem
up to the names of bound variables. -/
theorem Step.meets_eq_error_iff {c : StepFailure} :
    s.meets f = .error c ↔ s.expectation ≠ "" ∧
      ((∃ e, Formula.parse s.expectation = .error e ∧ c = .badExpectation e) ∨
        ∃ g, Formula.parse s.expectation = .ok g ∧ ¬ g.AlphaEquivalent f ∧ c = .unmet f g) := by
  unfold meets
  by_cases hempty : s.expectation = ""
  · simp [hempty]
  rw [if_neg hempty]
  cases hparse : Formula.parse s.expectation with
  | error e => simp [hempty, eq_comm]
  | ok g =>
    have hequal : g.austereEquals f = true ↔ g.AlphaEquivalent f := by
      rw [← Formula.austere_eq_iff, Formula.austereEquals, decide_eq_true_eq]
    by_cases hg : g.AlphaEquivalent f
    · simp [hequal.mpr hg, hg]
    · have hfalse : ¬ g.austereEquals f = true := fun h => hg (hequal.mp h)
      simp [hfalse, hg, hempty, eq_comm]

theorem Passed.append {more : List Step} (h : Passed steps d d₁) (h' : Passed more d₁ d') :
    Passed (steps ++ more) d d' := by
  induction h with
  | nil => exact h'
  | cons established met _ ih => exact .cons established met (ih h')

/-- A passage can be interrupted anywhere. -/
theorem Passed.interrupted (h : Passed steps d d') (j : Nat) :
    ∃ d₁, Passed (steps.take j) d d₁ ∧ Passed (steps.drop j) d₁ d' := by
  induction h generalizing j with
  | @nil d => exact ⟨d, by rw [List.take_nil]; exact .nil, by rw [List.drop_nil]; exact .nil⟩
  | @cons s rest f d d₁ d₂ established met more ih =>
    cases j with
    | zero => exact ⟨d, .nil, .cons established met more⟩
    | succ j =>
      obtain ⟨e, hbefore, hbehind⟩ := ih j
      exact ⟨e, .cons established met hbefore, hbehind⟩

/-- What a passage does at one of its steps. -/
theorem Passed.at_step (h : Passed steps d d') {j : Nat} (hs : steps[j]? = some s) :
    ∃ d₁ f d₂, Passed (steps.take j) d d₁ ∧ s.Establishes d₁ f d₂ ∧ s.meets f = .ok () ∧
      Passed (steps.take (j + 1)) d d₂ ∧ Passed (steps.drop (j + 1)) d₂ d' := by
  obtain ⟨d₁, hbefore, hbehind⟩ := h.interrupted j
  obtain ⟨hj, rfl⟩ := List.getElem?_eq_some_iff.mp hs
  rw [List.drop_eq_getElem_cons hj] at hbehind
  cases hbehind with
  | @cons _ _ f _ d₂ _ established met more =>
    have hthis : Passed (steps.take (j + 1)) d d₂ := by
      rw [List.take_add_one, hs]
      exact hbefore.append (.cons established met .nil)
    exact ⟨d₁, f, d₂, hbefore, established, met, hthis, more⟩

theorem theorems_of_prefix (h : d.steps <+: d'.steps) {j : Nat} (hf : d.theorems[j]? = some f) :
    d'.theorems[j]? = some f := by
  obtain ⟨tail, htail⟩ := h
  have hin := (List.getElem?_eq_some_iff.mp hf).1
  rw [Deduction.theorems, ← htail, List.map_append]
  exact (List.getElem?_append_left hin).trans hf

/-- A passage adds one theorem for each step, behind those that were there. -/
theorem Passed.grows (h : Passed steps d d') (hc : d.Coherent) :
    d'.Coherent ∧ d.steps <+: d'.steps ∧ d'.size = d.size + steps.length := by
  induction h with
  | nil => exact ⟨hc, List.prefix_refl _, rfl⟩
  | @cons s rest f d d₁ d₂ established met more ih =>
    obtain ⟨m, hm⟩ := established.granted hc
    obtain ⟨hc₂, hmore, hsize⟩ := ih (hm.coherent hc)
    obtain ⟨scopes, j, rfl⟩ := hm.exists_extended
    refine ⟨hc₂, (List.prefix_append _ _).trans hmore, ?_⟩
    rw [hsize, Deduction.size_extended, List.length_cons]
    omega

/-- The theorem of a step has the number that the step has. -/
theorem Step.Establishes.grows (h : s.Establishes d f d') (hc : d.Coherent) :
    d'.Coherent ∧ d.steps <+: d'.steps ∧ d'.size = d.size + 1 ∧
      d'.theorems[d.size]? = some f := by
  obtain ⟨m, hm⟩ := h.granted hc
  have hc' := hm.coherent hc
  obtain ⟨scopes, j, rfl⟩ := hm.exists_extended
  refine ⟨hc', List.prefix_append _ _, Deduction.size_extended, ?_⟩
  have hlast : (d.extended scopes f j).steps[d.size]? =
      some ⟨f, j, scopes.size, scopes.items.headD 0⟩ :=
    Deduction.getElem?_steps_extended.mpr (Or.inr ⟨rfl, rfl⟩)
  rw [Deduction.theorems, List.getElem?_map, hlast]
  rfl

/-- A step that fails adds at most the theorem that its announcement misses. -/
theorem Step.perform_grows {c : StepFailure} (hc : d.Coherent)
    (h : s.perform d = (d', some c)) :
    d.steps <+: d'.steps ∧
      ((∃ f, s.Establishes d f d' ∧ s.meets f = .error c ∧ d'.size = d.size + 1 ∧
          d'.theorems[d.size]? = some f) ∨
        (∀ f d₁, ¬ s.Establishes d f d₁) ∧ d'.size = d.size) := by
  rcases Step.perform_eq_some h with ⟨f, hestablished, hmeets⟩ | ⟨hnone, rfl⟩
  · obtain ⟨-, hgrown, hsize, htheorem⟩ := hestablished.grows hc
    exact ⟨hgrown, Or.inl ⟨f, hestablished, hmeets, hsize, htheorem⟩⟩
  · exact ⟨List.prefix_refl _, Or.inr ⟨hnone, rfl⟩⟩

theorem runSteps_of_passed (h : Passed steps d d') (index : Nat) (more : List Step) :
    runSteps d index (steps ++ more) = runSteps d' (index + steps.length) more := by
  induction h generalizing index with
  | nil => rfl
  | @cons s rest f d d₁ d₂ established met passed ih =>
    have hperform := Step.perform_eq_none_iff.mpr ⟨f, established, met⟩
    rw [List.cons_append, runSteps, hperform]
    dsimp only
    rw [ih, List.length_cons, Nat.add_assoc, Nat.add_comm 1]

theorem runSteps_eq_of_passed (h : Passed steps d d') (index : Nat) :
    runSteps d index steps = (d', none) := by
  have hrun := runSteps_of_passed h index []
  rwa [List.append_nil] at hrun

/-- Every run is a passage, through all the steps or up to the first that fails. -/
theorem runSteps_cases (steps : List Step) (d : Deduction) (index : Nat) :
    (∃ d', Passed steps d d' ∧ runSteps d index steps = (d', none)) ∨
      ∃ before s behind d₁ d' c, steps = before ++ s :: behind ∧ Passed before d d₁ ∧
        s.perform d₁ = (d', some c) ∧
        runSteps d index steps = (d', some (.step (index + before.length) s.rule c)) := by
  induction steps generalizing d index with
  | nil => exact Or.inl ⟨d, .nil, rfl⟩
  | cons s rest ih =>
    cases hperform : s.perform d with
    | mk d₁ outcome =>
      cases outcome with
      | some c =>
        refine Or.inr ⟨[], s, rest, d, d₁, c, rfl, .nil, hperform, ?_⟩
        rw [runSteps, hperform]
        rfl
      | none =>
        obtain ⟨f, established, met⟩ := Step.perform_eq_none_iff.mp hperform
        rw [runSteps, hperform]
        dsimp only
        rcases ih d₁ (index + 1) with ⟨d', hpassed, hrun⟩ |
          ⟨before, s', behind, d₂, d', c, rfl, hpassed, hfails, hrun⟩
        · exact Or.inl ⟨d', .cons established met hpassed, hrun⟩
        · refine Or.inr ⟨s :: before, s', behind, d₂, d', c, rfl, .cons established met hpassed,
            hfails, ?_⟩
          rw [hrun, List.length_cons, Nat.add_assoc, Nat.add_comm 1]

section Scripts

variable {script : Script} {axioms : List Formula} {m n : Nat}

/-- The deduction of a script comes from its steps alone, and so does a failure
at a step. -/
theorem run_cases (script : Script) (axioms : List Formula) :
    (Passed script.steps (.start script.title axioms) (script.run axioms).1 ∧
      ∀ i rule c, (script.run axioms).2 ≠ some (.step i rule c)) ∨
    ∃ i s d₁ c, script.steps[i]? = some s ∧
      Passed (script.steps.take i) (.start script.title axioms) d₁ ∧
      s.perform d₁ = ((script.run axioms).1, some c) ∧
      (script.run axioms).2 = some (.step i s.rule c) := by
  rw [run_fst]
  rcases runSteps_cases script.steps (.start script.title axioms) 0 with ⟨d, hpassed, hrun⟩ |
    ⟨before, s, behind, d₁, d, c, hsteps, hpassed, hperform, hrun⟩
  · refine Or.inl ⟨by rwa [hrun], ?_⟩
    intro i rule c hstep
    simp only [run, hrun] at hstep
    split at hstep
    · cases hstep
    · unfold reaches at hstep
      grind
  · refine Or.inr ⟨before.length, s, d₁, c, ?_, ?_, ?_, ?_⟩
    · rw [hsteps, List.getElem?_append_right (Nat.le_refl _), Nat.sub_self]
      rfl
    · rwa [hsteps, List.take_left]
    · rw [hrun, hperform]
    · rw [run, hrun, Nat.zero_add]

theorem after_eq (h : Passed (script.steps.take m) (.start script.title axioms) d) :
    script.after axioms m = d := by
  rw [after, run_fst]
  exact congrArg Prod.fst (runSteps_eq_of_passed h 0)

/-- Behind a step that fails nothing is looked at. -/
theorem after_of_lt {c : StepFailure} {i : Nat} (hs : script.steps[i]? = some s)
    (hpassed : Passed (script.steps.take i) (.start script.title axioms) d₁)
    (hperform : s.perform d₁ = (d', some c)) (him : i < m) : script.after axioms m = d' := by
  obtain ⟨hi, rfl⟩ := List.getElem?_eq_some_iff.mp hs
  have htake : script.steps.take m = script.steps.take i ++
      script.steps[i] :: (script.steps.drop (i + 1)).take (m - i - 1) := by
    have hsplit : m = i + 1 + (m - i - 1) := by omega
    nth_rewrite 1 [hsplit]
    rw [List.take_add, List.take_add_one, List.getElem?_eq_getElem hi, List.append_assoc]
    rfl
  rw [after, run_fst]
  change (runSteps (.start script.title axioms) 0 (script.steps.take m)).1 = d'
  rw [htake, runSteps_of_passed hpassed, runSteps, hperform]

theorem Passed.size_eq (h : Passed (script.steps.take n) (.start script.title axioms) d)
    (hn : n ≤ script.steps.length) : d.size = n := by
  obtain ⟨-, -, hsize⟩ := h.grows (Deduction.coherent_start script.title axioms)
  rw [hsize, List.length_take, Nat.min_eq_left hn]
  exact Nat.zero_add n

/-- A passage through the first steps tells what each of them does. -/
theorem Passed.established (h : Passed (script.steps.take n) (.start script.title axioms) d)
    (hn : n ≤ script.steps.length) {j : Nat} (hj : j < n) :
    ∃ s f, script.steps[j]? = some s ∧
      s.Establishes (script.after axioms j) f (script.after axioms (j + 1)) ∧
      s.meets f = .ok () ∧ d.theorems[j]? = some f := by
  have hlt : j < script.steps.length := by omega
  have hs := List.getElem?_eq_getElem hlt
  have htaken : (script.steps.take n)[j]? = some script.steps[j] := by
    rwa [List.getElem?_take_of_lt hj]
  obtain ⟨d₁, f, d₂, hbefore, hestablished, hmeets, hthis, hrest⟩ := h.at_step htaken
  rw [List.take_take, Nat.min_eq_left (by omega)] at hbefore hthis
  obtain ⟨hc₁, -⟩ := hbefore.grows (Deduction.coherent_start script.title axioms)
  obtain ⟨hc₂, -, -, htheorem⟩ := hestablished.grows hc₁
  obtain ⟨-, hgrown, -⟩ := hrest.grows hc₂
  rw [hbefore.size_eq (by omega)] at htheorem
  rw [← after_eq hbefore, ← after_eq hthis] at hestablished
  exact ⟨_, f, hs, hestablished, hmeets, theorems_of_prefix hgrown htheorem⟩

/-- Fewer steps give the beginning of the log. -/
theorem Passed.after_steps (h : Passed (script.steps.take n) (.start script.title axioms) d)
    (hn : n ≤ script.steps.length) (hm : m ≤ n) :
    (script.after axioms m).steps = d.steps.take m := by
  obtain ⟨d₁, hbefore, hbehind⟩ := h.interrupted m
  rw [List.take_take, Nat.min_eq_left hm] at hbefore
  have hsize : d₁.steps.length = m := hbefore.size_eq (Nat.le_trans hm hn)
  obtain ⟨hc, -⟩ := hbefore.grows (Deduction.coherent_start script.title axioms)
  obtain ⟨-, hgrown, -⟩ := hbehind.grows hc
  rw [after_eq hbefore, List.prefix_iff_eq_take.mp hgrown, hsize]

/-- The theorems of a deduction are those of the steps with the same numbers, and
fewer steps give the beginning of its log. -/
structure Numbered (script : Script) (axioms : List Formula) (d : Deduction) : Prop where
  established : ∀ j < d.size, ∃ s f, script.steps[j]? = some s ∧
    s.Establishes (script.after axioms j) f (script.after axioms (j + 1)) ∧
    d.theorems[j]? = some f
  begun : ∀ m, (script.after axioms m).steps = d.steps.take (min m d.size)

/-- No step fails. -/
theorem Passed.numbered (h : Passed script.steps (.start script.title axioms) d) :
    Numbered script axioms d ∧ d.size = script.steps.length := by
  have hall : Passed (script.steps.take script.steps.length) (.start script.title axioms) d := by
    rwa [List.take_length]
  have hsize := hall.size_eq (Nat.le_refl _)
  refine ⟨⟨fun j hj => ?_, fun m => ?_⟩, hsize⟩
  · rw [hsize] at hj
    obtain ⟨s, f, hs, hestablished, -, htheorem⟩ := hall.established (Nat.le_refl _) hj
    exact ⟨s, f, hs, hestablished, htheorem⟩
  · rw [hsize]
    rcases Nat.le_total m script.steps.length with hm | hm
    · rw [Nat.min_eq_left hm, hall.after_steps (Nat.le_refl _) hm]
    · have hd : script.after axioms m = d := after_eq (by rwa [List.take_of_length_le hm])
      rw [Nat.min_eq_right hm, hd, ← hsize]
      exact List.take_length.symm

/-- A step fails after others have passed. Its own theorem comes last, if it has one. -/
theorem numbered_of_failed {c : StepFailure} {i : Nat} (hs : script.steps[i]? = some s)
    (hpassed : Passed (script.steps.take i) (.start script.title axioms) d₁)
    (hperform : s.perform d₁ = (d', some c)) : Numbered script axioms d' := by
  have hi : i ≤ script.steps.length := Nat.le_of_lt (List.getElem?_eq_some_iff.mp hs).1
  have hsize₁ : d₁.size = i := hpassed.size_eq hi
  obtain ⟨hc, -⟩ := hpassed.grows (Deduction.coherent_start script.title axioms)
  obtain ⟨hgrown, hfailed⟩ := Step.perform_grows hc hperform
  rw [hsize₁] at hfailed
  have hsize : d'.size = i + 1 ∨ d'.size = i := by
    rcases hfailed with ⟨-, -, -, hmore, -⟩ | ⟨-, hsame⟩
    · exact Or.inl hmore
    · exact Or.inr hsame
  refine ⟨fun j hj => ?_, fun m => ?_⟩
  · rcases Nat.lt_or_ge j i with hji | hij
    · obtain ⟨s', f, hs', hestablished, -, htheorem⟩ := hpassed.established hi hji
      exact ⟨s', f, hs', hestablished, theorems_of_prefix hgrown htheorem⟩
    · obtain rfl : j = i := by omega
      rcases hfailed with ⟨f, hestablished, -, -, htheorem⟩ | ⟨-, hsame⟩
      · refine ⟨s, f, hs, ?_, htheorem⟩
        rwa [after_eq hpassed, after_of_lt hs hpassed hperform (Nat.lt_succ_self j)]
      · exact absurd hj (Nat.not_lt_of_le (Nat.le_of_eq hsame))
  · rcases Nat.lt_or_ge i m with him | hmi
    · rw [after_of_lt hs hpassed hperform him, Nat.min_eq_right (by omega)]
      exact List.take_length.symm
    · obtain ⟨tail, htail⟩ := hgrown
      have hinside : m ≤ d₁.steps.length := Nat.le_trans hmi (Nat.le_of_eq hsize₁.symm)
      rw [hpassed.after_steps hi hmi, Nat.min_eq_left (by omega), ← htail,
        List.take_append_of_le_length hinside]

/-- Theorem number `j` of a script's deduction is what step number `j` of the
script establishes, and fewer steps give the beginning of the same log. If no
step fails there are as many theorems as steps. If step number `i` fails, the
steps before it pass; theorem number `i` is there if the step's rule succeeds and
only its announcement is missed, and otherwise it is not. -/
theorem steps_number_theorems (script : Script) (axioms : List Formula) :
    let d := (script.run axioms).1
    (∀ j < d.size, ∃ s f, script.steps[j]? = some s ∧
      s.Establishes (script.after axioms j) f (script.after axioms (j + 1)) ∧
      d.theorems[j]? = some f) ∧
    (∀ m, (script.after axioms m).steps = d.steps.take (min m d.size)) ∧
    match (script.run axioms).2 with
    | some (.step i rule c) =>
      ∃ s, script.steps[i]? = some s ∧ s.rule = rule ∧
        (∀ j < i, ∃ s' f, script.steps[j]? = some s' ∧
          s'.Establishes (script.after axioms j) f (script.after axioms (j + 1)) ∧
          s'.meets f = .ok ()) ∧
        ((∃ f, s.Establishes (script.after axioms i) f d ∧ d.size = i + 1 ∧
            ((∃ e, Formula.parse s.expectation = .error e ∧ c = .badExpectation e) ∨
              ∃ g, Formula.parse s.expectation = .ok g ∧ ¬ g.AlphaEquivalent f ∧
                c = .unmet f g)) ∨
          (∀ f d', ¬ s.Establishes (script.after axioms i) f d') ∧ d.size = i)
    | _ => d.size = script.steps.length := by
  intro d
  rcases run_cases script axioms with ⟨hpassed, hnone⟩ |
    ⟨i, s, d₁, c, hs, hpassed, hperform, houtcome⟩
  · obtain ⟨⟨hestablished, hbegun⟩, hsize⟩ := hpassed.numbered
    refine ⟨hestablished, hbegun, ?_⟩
    split
    · next i rule c h => exact absurd h (hnone i rule c)
    · exact hsize
  · obtain ⟨hestablished, hbegun⟩ := numbered_of_failed hs hpassed hperform
    refine ⟨hestablished, hbegun, ?_⟩
    have hi : i ≤ script.steps.length := Nat.le_of_lt (List.getElem?_eq_some_iff.mp hs).1
    obtain ⟨hc, -⟩ := hpassed.grows (Deduction.coherent_start script.title axioms)
    obtain ⟨-, hfailed⟩ := Step.perform_grows hc hperform
    rw [hpassed.size_eq hi] at hfailed
    rw [houtcome]
    refine ⟨s, hs, rfl, fun j hj => ?_, ?_⟩
    · obtain ⟨s', f, hs', hestablished, hmeets, -⟩ := hpassed.established hi hj
      exact ⟨s', f, hs', hestablished, hmeets⟩
    · rw [after_eq hpassed]
      rcases hfailed with ⟨f, hestablished, hmeets, hmore, -⟩ | ⟨hnone, hsame⟩
      · exact Or.inl ⟨f, hestablished, hmore, (Step.meets_eq_error_iff.mp hmeets).2⟩
      · exact Or.inr ⟨hnone, hsame⟩

end Scripts

end Script

end Typographical
