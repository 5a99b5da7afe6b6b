import Mathlib.Data.List.Induction
import Typographical.Proofs.Scopes

/-!
# Closed suppositions stay closed

A theorem is visible if it stands under no supposition or in the block that is
open. Moves read the log through visible theorems only, so two deductions that
differ in nothing but theorems of closed blocks cannot be told apart: every move
gives the same theorem in both, or fails in both for a reason of the same kind
and in the same words, and what they are led to differs in closed blocks only.

The failures themselves may differ in one respect. A reference into a closed
block is refused with the theorem that it refers to.
-/

namespace Typographical

/-- What is told of a cause: its kind and its wording, not the formulas in it. -/
def Cause.told (c : Cause) : Option Kind × String := (c.kind, c.message)

/-- Equal results, or failures of which the same is told. -/
def Alike {α : Type} (x y : Except Cause α) : Prop :=
  x.mapError Cause.told = y.mapError Cause.told

section Alike

variable {α β : Type} {x y : Except Cause α}

theorem alike_error {c c' : Cause} (h : c.told = c'.told) :
    Alike (.error c : Except Cause α) (.error c') :=
  congrArg Except.error h

theorem Alike.bind (h : Alike x y) {f g : α → Except Cause β} (hfg : ∀ a, Alike (f a) (g a)) :
    Alike (x >>= f) (y >>= g) := by
  cases x with
  | error c =>
    cases y with
    | error c' =>
      have htold : c.told = c'.told := by simpa [Alike, Except.mapError] using h
      exact alike_error htold
    | ok b => simp [Alike, Except.mapError] at h
  | ok a =>
    cases y with
    | error c' => simp [Alike, Except.mapError] at h
    | ok b =>
      have hab : a = b := by simpa [Alike, Except.mapError] using h
      subst hab
      exact hfg a

/-- An inference asks for theorems and does the same with them whatever else is
in the log. -/
theorem Inference.alike_conclude {use use' : UInt64 → Except Cause Formula}
    (h : ∀ n, Alike (use n) (use' n)) (premise : Except Cause (Option Formula)) (i : Inference) :
    Alike (i.conclude use premise) (i.conclude use' premise) := by
  have once : ∀ {n : UInt64} {conclude : Formula → Except Cause Formula},
      Alike (use n >>= conclude) (use' n >>= conclude) :=
    (h _).bind (fun _ => rfl)
  have twice : ∀ {n m : UInt64} {conclude : Formula → Formula → Except Cause Formula},
      Alike (use n >>= fun f => use m >>= conclude f) (use' n >>= fun f => use' m >>= conclude f) :=
    (h _).bind (fun _ => (h _).bind (fun _ => rfl))
  cases i with
  | transitivity n m => exact twice
  | induction v base general => exact twice
  | joining n m => exact twice
  | detachment n m => exact twice
  | _ => exact once

end Alike

namespace Deduction

variable {d e d' e' : Deduction} {f : Formula} {m : Move} {k origin : Nat} {s t : Step}

/-- What a move tells: the theorem that it gives, or the kind and the wording of
its failure. -/
def answer (d : Deduction) (m : Move) : Except (Option Kind × String) Formula :=
  ((d.apply m).map Prod.fst).mapError (fun e => (e.cause.kind, e.message))

/-- The theorem with number `k` stands under no supposition, or in the block
that is open. -/
def Visible (d : Deduction) (k : Nat) : Prop :=
  ∃ s, d.steps[k]? = some s ∧
    (s.depth = 0 ∨ ∃ first last, d.OpenBlock first last ∧ first ≤ k ∧ k ≤ last)

/-- Two deductions that differ at most in theorems that are not visible, in how
theorems were justified and in their titles. -/
structure Agree (d e : Deduction) : Prop where
  axioms : d.axioms = e.axioms
  scopes : d.scopes = e.scopes
  size : d.size = e.size
  placed : ∀ (k : Nat) (s t : Step), d.steps[k]? = some s → e.steps[k]? = some t →
    s.depth = t.depth ∧ s.scopeStart = t.scopeStart
  formula : ∀ (k : Nat) (s t : Step), d.steps[k]? = some s → e.steps[k]? = some t →
    d.Visible k → s.formula = t.formula

/-- Inside its block a theorem is behind the one that the block names. -/
theorem Scoped.scopeStart_le (h : d.Scoped) (hs : d.steps[k]? = some s) : s.scopeStart ≤ k := by
  rcases h.depth hs with ⟨-, hstart⟩ | hdepth
  · rw [hstart]
    exact Nat.zero_le k
  · obtain ⟨first, last, hb, hfirst, hlast⟩ := exists_block ⟨s, hs, hdepth⟩
    rwa [h.scopeStart_eq hb hfirst hlast hs]

/-- The open block is the only one that begins where the stack says. -/
theorem Scoped.visible_iff (h : d.Scoped) (hs : d.steps[k]? = some s) :
    d.Visible k ↔ s.depth = 0 ∨ d.scopes.items.head? = some s.scopeStart := by
  constructor
  · rintro ⟨s', hs', hvisible⟩
    cases hs.symm.trans hs'
    rcases hvisible with hdepth | ⟨first, last, ⟨hb, hitems, -⟩, hfirst, hlast⟩
    · exact Or.inl hdepth
    · refine Or.inr ?_
      rw [hitems, h.scopeStart_eq hb hfirst hlast hs]
      rfl
  · rintro (hdepth | hhead)
    · exact ⟨s, hs, Or.inl hdepth⟩
    rcases h.depth hs with ⟨hdepth, -⟩ | hdepth
    · exact ⟨s, hs, Or.inl hdepth⟩
    have hitems : d.scopes.items ≠ [] := by
      intro hempty
      rw [hempty] at hhead
      cases hhead
    obtain ⟨first, last, hb, hfirst, hlast⟩ := exists_block ⟨s, hs, hdepth⟩
    obtain ⟨origin, final, ho⟩ := h.exists_openBlock hitems
    have horigin : origin = first := by
      rw [ho.2.1, h.scopeStart_eq hb hfirst hlast hs] at hhead
      exact Option.some.inj hhead
    subst horigin
    obtain ⟨-, rfl⟩ := hb.unique ho.1 ⟨Nat.le_refl _, hb.ordered⟩ ⟨Nat.le_refl _, ho.1.ordered⟩
    exact ⟨s, hs, Or.inr ⟨origin, last, ho, hfirst, hlast⟩⟩

theorem OpenAt.visible (ho : d.OpenAt origin) (h : d.Scoped) (hk : origin ≤ k)
    (hs : d.steps[k]? = some s) : d.Visible k := by
  rw [h.visible_iff hs, ho.scopes, (ho.block k hk s hs).2]
  exact Or.inr rfl

theorem Agree.exists_step (h : d.Agree e) (hs : d.steps[k]? = some s) :
    ∃ t, e.steps[k]? = some t := by
  apply Deduction.exists_step
  rw [← h.size]
  exact lt_size hs

theorem Scoped.use_of_visible (hd : d.Scoped) (hc : d.Coherent) {n : UInt64}
    (hs : d.steps[n.toNat]? = some s) (hvisible : d.Visible n.toNat) : d.use n = .ok s.formula :=
  (use_eq_ok_iff hc).mpr ⟨s, hs, rfl, (hd.visible_iff hs).mp hvisible⟩

theorem use_of_hidden (hc : d.Coherent) {n : UInt64} (hs : d.steps[n.toNat]? = some s)
    (hidden : ¬ (s.depth = 0 ∨ d.scopes.items.head? = some s.scopeStart)) :
    d.use n = .error (.closedSupposition n s.formula) := by
  rw [not_or] at hidden
  rw [use, hs]
  simp only [if_neg hidden.1, hc.openScope, bind, Except.bind, if_neg hidden.2]

/-- A reference is good in both deductions, to the same theorem, or in neither. -/
theorem Agree.alike_use (h : d.Agree e) (hc : d.Coherent) (hc' : e.Coherent) (hd : d.Scoped)
    (n : UInt64) : Alike (d.use n) (e.use n) := by
  cases hs : d.steps[n.toNat]? with
  | none =>
    have ht : e.steps[n.toNat]? = none := by
      have hle : d.size ≤ n.toNat := List.getElem?_eq_none_iff.mp hs
      rw [h.size] at hle
      exact List.getElem?_eq_none_iff.mpr hle
    rw [use, hs, use, ht, h.size]
    rfl
  | some s =>
    obtain ⟨t, ht⟩ := h.exists_step hs
    obtain ⟨hdepth, hstart⟩ := h.placed _ s t hs ht
    by_cases hvisible : s.depth = 0 ∨ d.scopes.items.head? = some s.scopeStart
    · have hformula := h.formula _ s t hs ht ((hd.visible_iff hs).mpr hvisible)
      have huse : d.use n = .ok s.formula := (use_eq_ok_iff hc).mpr ⟨s, hs, rfl, hvisible⟩
      rw [hdepth, hstart, h.scopes] at hvisible
      have huse' : e.use n = .ok t.formula := (use_eq_ok_iff hc').mpr ⟨t, ht, rfl, hvisible⟩
      rw [huse, huse', hformula]
      rfl
    · rw [use_of_hidden hc hs hvisible]
      rw [hdepth, hstart, h.scopes] at hvisible
      rw [use_of_hidden hc' ht hvisible]
      exact alike_error rfl

theorem Agree.closed (h : d.Agree e) (hd : d.Closed) : e.Closed := by
  rw [Closed, ← h.scopes]
  exact hd

theorem Agree.openAt (h : d.Agree e) (hc' : e.Coherent) (hd : d.OpenAt origin) :
    e.OpenAt origin := by
  have hscopes : e.scopes = ⟨[origin], maxDepth⟩ := h.scopes.symm.trans hd.scopes
  rcases hc' with hc' | ⟨origin', ho⟩
  · rw [Closed, hscopes] at hc'
    cases hc'
  · have hsame := ho.scopes
    rw [hscopes] at hsame
    cases hsame
    exact ho

/-- The theorems of the open block are the same. -/
theorem Agree.formula_of_openAt (h : d.Agree e) (hd : d.Scoped) (ho : d.OpenAt origin)
    (hk : origin ≤ k) (hs : d.steps[k]? = some s) (ht : e.steps[k]? = some t) :
    s.formula = t.formula :=
  h.formula k s t hs ht (ho.visible hd hk hs)

theorem Agree.openPremise_eq (h : d.Agree e) (hc : d.Coherent) (hc' : e.Coherent)
    (hd : d.Scoped) : d.openPremise = e.openPremise := by
  rcases hc with hc | ⟨origin, ho⟩
  · rw [hc.openPremise, (h.closed hc).openPremise]
  · obtain ⟨p, hp⟩ := ho.exists_premise
    obtain ⟨p', hp'⟩ := h.exists_step hp
    rw [ho.openPremise hp, (h.openAt hc' ho).openPremise hp',
      h.formula_of_openAt hd ho (Nat.le_refl _) hp hp']

theorem map_fst_admissible {g : Formula} {d : Deduction} :
    ((admissible f).map (fun _ => (g, d))).map Prod.fst = (admissible f).map (fun _ => g) := by
  cases admissible f <;> rfl

theorem alike_derive (hc : d.Coherent) (hc' : e.Coherent) (f : Formula)
    (j : Justification) : Alike ((d.derive f j).map Prod.fst) ((e.derive f j).map Prod.fst) := by
  rw [derive_eq hc, derive_eq hc', map_fst_admissible, map_fst_admissible]
  rfl

theorem Agree.alike_postulate (h : d.Agree e) (hc : d.Coherent) (hc' : e.Coherent)
    (f : Formula) : Alike ((d.postulate f).map Prod.fst) ((e.postulate f).map Prod.fst) := by
  rw [postulate, postulate, h.axioms]
  cases Axioms.find? e.axioms f with
  | none => rfl
  | some number => exact alike_derive hc hc' f _

theorem Agree.alike_suppose (h : d.Agree e) (hc : d.Coherent) (hc' : e.Coherent) (hd : d.Scoped)
    (f : Formula) : Alike ((d.suppose f).map Prod.fst) ((e.suppose f).map Prod.fst) := by
  rcases hc with hc | ⟨origin, ho⟩
  · rw [hc.suppose_eq, (h.closed hc).suppose_eq, map_fst_admissible, map_fst_admissible]
    rfl
  · obtain ⟨p, hp⟩ := ho.exists_premise
    obtain ⟨p', hp'⟩ := h.exists_step hp
    rw [ho.suppose_eq hp, (h.openAt hc' ho).suppose_eq hp',
      h.formula_of_openAt hd ho (Nat.le_refl _) hp hp']
    rfl

theorem Agree.alike_discharge (h : d.Agree e) (hc : d.Coherent) (hc' : e.Coherent)
    (hd : d.Scoped) : Alike (d.discharge.map Prod.fst) (e.discharge.map Prod.fst) := by
  rcases hc with hc | ⟨origin, ho⟩
  · rw [hc.discharge_eq, (h.closed hc).discharge_eq]
    rfl
  · obtain ⟨p, hp⟩ := ho.exists_premise
    obtain ⟨p', hp'⟩ := h.exists_step hp
    obtain ⟨q, hq⟩ := ho.exists_last
    obtain ⟨q', hq'⟩ := h.exists_step hq
    have hinside := ho.inside
    have hpremise := h.formula_of_openAt hd ho (Nat.le_refl _) hp hp'
    have hlast := h.formula_of_openAt hd ho (by omega) hq hq'
    rw [h.size] at hq'
    rw [ho.discharge_eq hp hq, (h.openAt hc' ho).discharge_eq hp' hq', map_fst_admissible,
      map_fst_admissible, hpremise, hlast]
    rfl

theorem map_fst_infer (d : Deduction) (i : Inference) : (d.infer i).map Prod.fst =
    i.conclude d.use d.openPremise >>= fun f => (d.derive f (.inferred i)).map Prod.fst := by
  rw [infer]
  cases i.conclude d.use d.openPremise <;> rfl

theorem Agree.alike_infer (h : d.Agree e) (hc : d.Coherent) (hc' : e.Coherent) (hd : d.Scoped)
    (i : Inference) : Alike ((d.infer i).map Prod.fst) ((e.infer i).map Prod.fst) := by
  rw [map_fst_infer, map_fst_infer, h.openPremise_eq hc hc' hd]
  exact (i.alike_conclude (h.alike_use hc hc' hd) e.openPremise).bind
    (fun f => alike_derive hc hc' f (.inferred i))

theorem answer_eq_of_alike {x y : Except Cause (Formula × Deduction)} (o : Operation)
    (h : Alike (x.map Prod.fst) (y.map Prod.fst)) :
    ((x.mapError (Failure.mk o)).map Prod.fst).mapError (fun e => (e.cause.kind, e.message)) =
      ((y.mapError (Failure.mk o)).map Prod.fst).mapError (fun e => (e.cause.kind, e.message)) := by
  cases x with
  | error c =>
    cases y with
    | error c' =>
      have htold : c.kind = c'.kind ∧ c.message = c'.message := by
        simpa [Alike, Except.map, Except.mapError, Cause.told] using h
      simp [Except.map, Except.mapError, Failure.message, htold]
    | ok r => simp [Alike, Except.map, Except.mapError] at h
  | ok r =>
    cases y with
    | error c' => simp [Alike, Except.map, Except.mapError] at h
    | ok r' => simpa [Alike, Except.map, Except.mapError] using h

theorem Agree.answer_eq (h : d.Agree e) (hc : d.Coherent) (hc' : e.Coherent) (hd : d.Scoped)
    (m : Move) : d.answer m = e.answer m := by
  cases m with
  | postulate f => exact answer_eq_of_alike _ (h.alike_postulate hc hc' f)
  | suppose f => exact answer_eq_of_alike _ (h.alike_suppose hc hc' hd f)
  | discharge => exact answer_eq_of_alike _ (h.alike_discharge hc hc' hd)
  | infer i => exact answer_eq_of_alike _ (h.alike_infer hc hc' hd i)

section Extended

variable {scopes : Stack Nat} {j j' : Justification}

/-- One more theorem leaves two deductions in agreement, as long as it makes no
earlier theorem visible. -/
theorem Agree.extended (h : d.Agree e) (hd : d.Scoped) (hd' : (d.extended scopes f j).Scoped)
    (fewer : ∀ (k : Nat) (s : Step), d.steps[k]? = some s →
      scopes.items.head? = some s.scopeStart → d.scopes.items.head? = some s.scopeStart) :
    (d.extended scopes f j).Agree (e.extended scopes f j') := by
  have old : ∀ (k : Nat) (s t : Step), (d.extended scopes f j).steps[k]? = some s →
      (e.extended scopes f j').steps[k]? = some t →
      (d.steps[k]? = some s ∧ e.steps[k]? = some t) ∨
        s = ⟨f, j, scopes.size, scopes.items.headD 0⟩ ∧
        t = ⟨f, j', scopes.size, scopes.items.headD 0⟩ := by
    intro k s t hs ht
    rcases getElem?_steps_extended.mp hs with hs | ⟨hk, hs⟩
    · rcases getElem?_steps_extended.mp ht with ht | ⟨hk, -⟩
      · exact Or.inl ⟨hs, ht⟩
      · have hlt := lt_size hs
        rw [h.size] at hlt
        omega
    · rcases getElem?_steps_extended.mp ht with ht | ⟨-, ht⟩
      · have hlt := lt_size ht
        rw [← h.size] at hlt
        omega
      · exact Or.inr ⟨hs, ht⟩
  refine ⟨h.axioms, rfl, by rw [size_extended, size_extended, h.size], ?_, ?_⟩
  · intro k s t hs ht
    rcases old k s t hs ht with ⟨hs, ht⟩ | ⟨rfl, rfl⟩
    · exact h.placed k s t hs ht
    · exact ⟨rfl, rfl⟩
  · intro k s t hs ht hvisible
    rw [hd'.visible_iff hs] at hvisible
    rcases old k s t hs ht with ⟨hs, ht⟩ | ⟨rfl, rfl⟩
    · refine h.formula k s t hs ht ((hd.visible_iff hs).mpr ?_)
      exact hvisible.imp_right (fewer k s hs)
    · rfl

end Extended

theorem Granted.agree (h : d.Agree e) (hc : d.Coherent) (hd : d.Scoped) (hm : d.Granted m f d')
    (hm' : e.Granted m f e') : d'.Agree e' := by
  have hd' := hm.scoped hc hd
  cases hm with
  | postulated found wellFormed =>
    cases hm' with
    | postulated found' wellFormed' =>
      rw [← h.scopes]
      exact h.extended hd hd' (fun _ _ _ hhead => hhead)
  | supposed closed wellFormed =>
    cases hm' with
    | supposed closed' wellFormed' =>
      rw [← h.size]
      refine h.extended hd hd' ?_
      intro k s hs hhead
      have hstart : d.size = s.scopeStart := Option.some.inj hhead
      have hle := hd.scopeStart_le hs
      have hlt := lt_size hs
      omega
  | discharged opened first final wellFormed =>
    generalize hf : Formula.implies _ _ = g at hm' hd' ⊢
    cases hm' with
    | discharged opened' first' final' wellFormed' =>
      refine h.extended hd hd' ?_
      intro k s hs hhead
      cases hhead
  | inferred follows wellFormed =>
    cases hm' with
    | inferred follows' wellFormed' =>
      rw [← h.scopes]
      exact h.extended hd hd' (fun _ _ _ hhead => hhead)

theorem Agree.advance (h : d.Agree e) (hc : d.Coherent) (hc' : e.Coherent) (hd : d.Scoped)
    (m : Move) : (d.advance m).Agree (e.advance m) := by
  have hanswer := h.answer_eq hc hc' hd m
  rw [answer, answer] at hanswer
  rw [Deduction.advance, Deduction.advance]
  cases hx : d.apply m with
  | error c =>
    cases hy : e.apply m with
    | error c' => exact h
    | ok r => simp [hx, hy, Except.map, Except.mapError] at hanswer
  | ok r =>
    cases hy : e.apply m with
    | error c' => simp [hx, hy, Except.map, Except.mapError] at hanswer
    | ok r' =>
      obtain ⟨f, d'⟩ := r
      obtain ⟨g, e'⟩ := r'
      have hfg : f = g := by simpa [hx, hy, Except.map, Except.mapError] using hanswer
      subst hfg
      exact ((apply_eq_ok_iff hc).mp hx).agree h hc hd ((apply_eq_ok_iff hc').mp hy)

theorem run_append (d : Deduction) (moves more : List Move) :
    d.run (moves ++ more) = (d.run moves).run more :=
  List.foldl_append

/-- Theorems of closed blocks have no influence. Two deductions that agree on
everything else go on to agree, and answer every move in the same way. -/
theorem closed_blocks_hidden {title title' : String} {axioms axioms' : List Formula}
    {moves moves' : List Move}
    (agree : ((start title axioms).run moves).Agree ((start title' axioms').run moves'))
    (more : List Move) :
    let d := ((start title axioms).run moves).run more
    let e := ((start title' axioms').run moves').run more
    d.Agree e ∧ ∀ m, d.answer m = e.answer m := by
  have reached : ∀ (title : String) (axioms : List Formula) (moves more : List Move),
      (((start title axioms).run moves).run more).Coherent ∧
        (((start title axioms).run moves).run more).Scoped := by
    intro title axioms moves more
    rw [← run_append]
    exact scoped_run title axioms (moves ++ more)
  have hagree : (((start title axioms).run moves).run more).Agree
      (((start title' axioms').run moves').run more) := by
    induction more using List.reverseRecOn with
    | nil => exact agree
    | append_singleton more m ih =>
      obtain ⟨hc, hd⟩ := reached title axioms moves more
      rw [run_append, run_append]
      exact ih.advance hc (reached title' axioms' moves' more).1 hd m
  obtain ⟨hc, hd⟩ := reached title axioms moves more
  exact ⟨hagree, hagree.answer_eq hc (reached title' axioms' moves' more).1 hd⟩

/-- From the same premise to the same conclusion on two ways, of which nothing is
left once the supposition is closed. -/
theorem closed_blocks_hidden_detour :
    let premise := Formula.equality Axioms.first .zero
    let straight := [.suppose premise, .infer (.successor 0), .infer (.symmetry 0), .discharge]
    let detour := [.suppose premise, .infer (.addDoubleTilde 0 0), .infer (.symmetry 0),
      .discharge]
    let d := (start "straight" Axioms.peano).run straight
    let e := (start "detour" Axioms.peano).run detour
    d.theorems ≠ e.theorems ∧ d.Agree e ∧
      ∀ more m, (d.run more).answer m = (e.run more).answer m := by
  intro premise straight detour d e
  have hsteps : d.steps = [⟨premise, .supposed, 1, 0⟩,
      ⟨.equality (.succ Axioms.first) (.succ .zero), .inferred (.successor 0), 1, 0⟩,
      ⟨.equality .zero Axioms.first, .inferred (.symmetry 0), 1, 0⟩,
      ⟨.implies premise (.equality .zero Axioms.first), .discharged 0 2, 0, 0⟩] := by decide
  have hsteps' : e.steps = [⟨premise, .supposed, 1, 0⟩,
      ⟨.neg (.neg premise), .inferred (.addDoubleTilde 0 0), 1, 0⟩,
      ⟨.equality .zero Axioms.first, .inferred (.symmetry 0), 1, 0⟩,
      ⟨.implies premise (.equality .zero Axioms.first), .discharged 0 2, 0, 0⟩] := by decide
  have hitems : d.scopes.items = [] := by decide
  have hagree : d.Agree e := by
    refine ⟨by decide, by decide, by decide, ?_, ?_⟩
    · intro k s t hs ht
      rw [hsteps] at hs
      rw [hsteps'] at ht
      match k with
      | 0 | 1 | 2 | 3 => cases hs; cases ht; exact ⟨rfl, rfl⟩
      | k + 4 => cases hs
    · intro k s t hs ht hvisible
      rw [(scoped_run "straight" Axioms.peano straight).2.visible_iff hs, hitems] at hvisible
      rw [hsteps] at hs
      rw [hsteps'] at ht
      match k with
      | 0 | 2 | 3 => cases hs; cases ht; rfl
      | 1 => cases hs; simp at hvisible
      | k + 4 => cases hs
  refine ⟨by decide, hagree, ?_⟩
  intro more m
  exact (closed_blocks_hidden hagree more).2 m

end Deduction

end Typographical
