import Typographical.Proofs.Formation
import Typographical.Proofs.Visibility

/-!
# Rules that bind a variable

The rule of existence takes a term out of a theorem and binds a variable in its
place. It goes through a placeholder, whose choice does not matter: the rule
applies exactly if the variable is neither bound in the theorem nor left over
when the term is taken out, and putting the term back in place of the variable
gives the theorem again.

The rule of induction makes five checks. Two of them, that the variable is not
bound in the statement and does not occur in the base case, cannot fail where the
other three succeed, because theorems are well quantified. So the rule applies
exactly where the two theorems have the form that it asks for.
-/

namespace Typographical

namespace Inference

variable {f g : Formula} {t : Term} {v x : Variable} {n : UInt64}

theorem placeholder_notMem_allVars (f : Formula) (t : Term) (v : Variable) :
    placeholder f t v ∉ f.allVars ∧ v ≠ placeholder f t v := by
  obtain ⟨hne, hfree, hbound, -⟩ := placeholder_not_mem f t v
  refine ⟨?_, hne.symm⟩
  rw [Formula.mem_allVars, not_or]
  exact ⟨hfree, hbound⟩

/-- The rule of existence without its placeholder. -/
theorem exhibit_eq_ok_iff (new : x ∉ f.allVars) (hx : v ≠ x) :
    exhibit n t v f = .ok g ↔ v ∉ f.boundVars ∧ v ∉ (f.replaceTerm t (.var x)).freeVars ∧
      g = .thereIs v (f.replaceTerm t (.var v)) := by
  obtain ⟨hplace, hv⟩ := placeholder_notMem_allVars f t v
  have hbody : (f.replaceTerm t (.var (placeholder f t v))).substitute (placeholder f t v)
      (.var v) = f.replaceTerm t (.var v) := by
    rw [Formula.mem_allVars, not_or] at hplace
    exact Formula.substitute_replaceTerm hplace.1 hplace.2
  rw [Formula.mem_freeVars_replaceTerm_congr new hplace hx hv, exhibit]
  by_cases hbound : v ∈ f.boundVars
  · simp [hbound]
  · by_cases hout : v ∈ (f.replaceTerm t (.var (placeholder f t v))).freeVars
    · simp [hbound, hout]
    · rw [if_neg (by simpa using hbound)]
      dsimp only
      rw [if_neg (by simpa using hout), hbody, Except.ok.injEq]
      exact ⟨fun h => ⟨hbound, hout, h.symm⟩, fun h => h.2.2.symm⟩

/-- The rule of induction, with what it checks. -/
theorem induct_eq_ok_iff {b : Formula} :
    induct v n b g = .ok f ↔ ∃ statement, v ∉ statement.boundVars ∧ b.containsVar v = false ∧
      g = .forAll v (.implies statement (statement.substitute v (.succ (.var v)))) ∧
      b = statement.substitute v .zero ∧ f = .forAll v statement := by
  constructor
  · intro h
    unfold induct at h
    split at h
    · next w statement next =>
      split at h
      · next hw =>
        subst hw
        dsimp only at h
        split at h
        · cases h
        · next hbound =>
          split at h
          · cases h
          · next hnext =>
            split at h
            · cases h
            · next hbase =>
              split at h
              · cases h
              · next hzero =>
                cases h
                rw [not_not] at hnext hzero
                refine ⟨statement, by simpa using hbound, by simpa using hbase, ?_, hzero, rfl⟩
                rw [hnext]
      · cases h
    · cases h
  · rintro ⟨statement, hbound, hbase, rfl, rfl, rfl⟩
    rw [induct, if_pos rfl]
    dsimp only
    rw [if_neg (by simpa using hbound), if_neg (not_not_intro rfl), if_neg (by simp [hbase]),
      if_neg (not_not_intro rfl)]

/-- A variable that is nowhere bound is gone when zero stands in its place. -/
theorem containsVar_substitute_zero {statement : Formula} (hv : v ∉ statement.boundVars) :
    (statement.substitute v .zero).containsVar v = false := by
  rw [Formula.mem_boundVars] at hv
  rw [Bool.eq_false_iff, Ne, Formula.containsVar_iff, Formula.quantifiedVars_substitute, not_or]
  refine ⟨?_, hv⟩
  rw [Formula.mem_freeVars_substitute (by simp [Term.occurrences])]
  simp [Term.occurrences]

end Inference

namespace Deduction

/-- The rule of existence applies to a visible theorem exactly if the variable is
not bound in it and is not free once a new variable stands in place of the term.
What it gives is the theorem with the variable in place of the term, below a
quantifier, and the term can be put back. The variable may occur in the term, and
the term need not occur in the theorem. -/
theorem existence_undone (title : String) (axioms : List Formula) (moves : List Move)
    (n : UInt64) (s : Step) (t : Term) (v : Variable) :
    let d := (start title axioms).run moves
    d.steps[n.toNat]? = some s → d.Visible n.toNat →
    (∀ x f, x ∉ s.formula.allVars → x ≠ v → s.formula.Replaced t (.var x) f →
      ((∃ g d', d.apply (.infer (.existence n t v)) = .ok (g, d')) ↔
        v ∉ s.formula.boundVars ∧ v ∉ f.freeVars)) ∧
    (∀ g d', d.apply (.infer (.existence n t v)) = .ok (g, d') →
      ∃ body, g = .thereIs v body ∧ s.formula.Replaced t (.var v) body ∧
        body.substitute v t = s.formula) := by
  intro d hs hvisible
  obtain ⟨hc, hwell⟩ := wellQuantified_run title axioms moves
  have huse : d.use n = .ok s.formula :=
    (scoped_run title axioms moves).2.use_of_visible hc hs hvisible
  have happly : ∀ g d', d.apply (.infer (.existence n t v)) = .ok (g, d') ↔
      Inference.exhibit n t v s.formula = .ok g ∧
        d' = d.extended d.scopes g (.inferred (.existence n t v)) := by
    intro g d'
    rw [apply_infer_eq_ok_iff hc hwell (by rintro ⟨⟩), Inference.conclude, huse]
    rfl
  constructor
  · intro x f new hx hf
    obtain rfl := Formula.replaced_iff.mp hf
    simp only [happly, Inference.exhibit_eq_ok_iff new hx.symm]
    constructor
    · rintro ⟨g, d', ⟨hbound, hout, -⟩, -⟩
      exact ⟨hbound, hout⟩
    · rintro ⟨hbound, hout⟩
      exact ⟨_, _, ⟨hbound, hout, rfl⟩, rfl⟩
  · intro g d' hg
    obtain ⟨new, hx⟩ := Inference.placeholder_notMem_allVars s.formula t v
    obtain ⟨hbound, hout, rfl⟩ := (Inference.exhibit_eq_ok_iff new hx).mp ((happly g d').mp hg).1
    rw [Formula.mem_boundVars] at hbound
    refine ⟨_, rfl, Formula.replaced_replaceTerm .., ?_⟩
    exact Formula.substitute_replaceTerm_var new hbound hout

/-- A successor is taken out, and the variable below it is bound in its place. -/
theorem existence_undone_successor :
    let b := Variable.austere 1
    let f := Formula.equality (.sum (.succ (.var b)) .zero) (.succ (.var b))
    let d := (start "" Axioms.peano).run [.suppose f]
    d.steps[(0 : UInt64).toNat]? = some ⟨f, .supposed, 1, 0⟩ ∧ d.Visible (0 : UInt64).toNat ∧
    ∃ d', d.apply (.infer (.existence 0 (.succ (.var b)) b)) =
        .ok (.thereIs b (.equality (.sum (.var b) .zero) (.var b)), d') ∧
      (Formula.equality (.sum (.var b) .zero) (.var b)).substitute b (.succ (.var b)) = f := by
  intro b f d
  have hs : d.steps[(0 : UInt64).toNat]? = some ⟨f, .supposed, 1, 0⟩ := by decide
  have hvisible : d.Visible (0 : UInt64).toNat := by
    rw [(scoped_run "" Axioms.peano [.suppose f]).2.visible_iff hs]
    decide
  obtain ⟨hiff, hresult⟩ :=
    existence_undone "" Axioms.peano [.suppose f] 0 _ (.succ (.var b)) b hs hvisible
  obtain ⟨g, d', happly⟩ :=
    (hiff (.austere 2) _ (by decide) (by decide) (Formula.replaced_replaceTerm ..)).mpr
      ⟨by decide, by decide⟩
  obtain ⟨body, rfl, hbody, hback⟩ := hresult g d' happly
  obtain rfl := Formula.replaced_iff.mp hbody
  exact ⟨hs, hvisible, d', happly, hback⟩

/-- The rule of induction applies to two visible theorems exactly if they are a
statement at zero and the step from the statement to its successor, and it gives
the statement for all numbers. The checks that the variable is not bound in the
statement and does not occur in the base case are passed by every such pair. -/
theorem induction_schema (title : String) (axioms : List Formula) (moves : List Move)
    (v : Variable) (base general : UInt64) (b g : Step) :
    let d := (start title axioms).run moves
    d.steps[base.toNat]? = some b → d.Visible base.toNat →
    d.steps[general.toNat]? = some g → d.Visible general.toNat →
    (∀ f d', d.apply (.infer (.induction v base general)) = .ok (f, d') ↔
      ∃ statement,
        g.formula = .forAll v (.implies statement (statement.substitute v (.succ (.var v)))) ∧
        b.formula = statement.substitute v .zero ∧ f = .forAll v statement ∧
        d' = d.extended d.scopes f (.inferred (.induction v base general))) ∧
    ∀ statement,
      g.formula = .forAll v (.implies statement (statement.substitute v (.succ (.var v)))) →
      b.formula = statement.substitute v .zero →
      v ∉ statement.boundVars ∧ b.formula.containsVar v = false := by
  intro d hb hvisibleBase hg hvisibleGeneral
  obtain ⟨hc, hwell⟩ := wellQuantified_run title axioms moves
  have hscoped := (scoped_run title axioms moves).2
  have huseBase : d.use base = .ok b.formula := hscoped.use_of_visible hc hb hvisibleBase
  have huseGeneral : d.use general = .ok g.formula :=
    hscoped.use_of_visible hc hg hvisibleGeneral
  have redundant : ∀ statement,
      g.formula = .forAll v (.implies statement (statement.substitute v (.succ (.var v)))) →
      b.formula = statement.substitute v .zero →
      v ∉ statement.boundVars ∧ b.formula.containsVar v = false := by
    intro statement hstep hzero
    have hquantified := hwell g (List.mem_of_getElem? hg)
    rw [hstep] at hquantified
    have hbound : v ∉ statement.boundVars := fun hmem =>
      hquantified.1 (List.mem_append_left _ (Formula.mem_boundVars.mp hmem))
    exact ⟨hbound, hzero ▸ Inference.containsVar_substitute_zero hbound⟩
  refine ⟨fun f d' => ?_, redundant⟩
  rw [apply_infer_eq_ok_iff hc hwell (by rintro ⟨⟩), Inference.conclude, huseBase, huseGeneral]
  change Inference.induct v general b.formula g.formula = .ok f ∧ _ ↔ _
  rw [Inference.induct_eq_ok_iff]
  constructor
  · rintro ⟨⟨statement, -, -, hstep, hzero, hf⟩, hd'⟩
    exact ⟨statement, hstep, hzero, hf, hd'⟩
  · rintro ⟨statement, hstep, hzero, hf, hd'⟩
    obtain ⟨hbound, hbase⟩ := redundant statement hstep hzero
    exact ⟨⟨statement, hbound, hbase, hstep, hzero, hf⟩, hd'⟩

/-- Induction over a statement that has a quantifier of its own. -/
theorem induction_schema_quantified :
    let a := Variable.austere 0
    let statement (t : Term) := Formula.thereIs (.austere 1) (.equality t (.var (.austere 1)))
    let b := statement .zero
    let g := Formula.forAll a (.implies (statement (.var a)) (statement (.succ (.var a))))
    let d := (start "" Axioms.peano).run
      [.suppose (.and b g), .infer (.separation 0 .left), .infer (.separation 0 .right)]
    d.steps[(1 : UInt64).toNat]? = some ⟨b, .inferred (.separation 0 .left), 1, 0⟩ ∧
    d.Visible (1 : UInt64).toNat ∧
    d.steps[(2 : UInt64).toNat]? = some ⟨g, .inferred (.separation 0 .right), 1, 0⟩ ∧
    d.Visible (2 : UInt64).toNat ∧
    ∃ d', d.apply (.infer (.induction a 1 2)) = .ok (.forAll a (statement (.var a)), d') := by
  intro a statement b g d
  have hb : d.steps[(1 : UInt64).toNat]? = some ⟨b, .inferred (.separation 0 .left), 1, 0⟩ := by
    decide
  have hg : d.steps[(2 : UInt64).toNat]? = some ⟨g, .inferred (.separation 0 .right), 1, 0⟩ := by
    decide
  have hscoped : d.Scoped := (scoped_run ..).2
  have hvisibleBase : d.Visible (1 : UInt64).toNat := by
    rw [hscoped.visible_iff hb]
    decide
  have hvisibleGeneral : d.Visible (2 : UInt64).toNat := by
    rw [hscoped.visible_iff hg]
    decide
  obtain ⟨hiff, -⟩ :=
    induction_schema "" Axioms.peano _ a 1 2 _ _ hb hvisibleBase hg hvisibleGeneral
  exact ⟨hb, hvisibleBase, hg, hvisibleGeneral, _,
    (hiff _ _).mpr ⟨statement (.var a), rfl, rfl, rfl, rfl⟩⟩

end Deduction

end Typographical
