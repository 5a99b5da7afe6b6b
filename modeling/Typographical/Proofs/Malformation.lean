import Typographical.Proofs.WellFormed

/-!
# Violations and where they occur

Whether a formula is well quantified can be said of its occurrences: no
quantifier stands below another one of the same variable, and nowhere is a
variable free on one side of a connective and bound on the other. The check
decides this. When it fails, it names an occurrence and a variable for which one
of the two is the case.
-/

namespace Typographical

namespace Formula

variable {f g l r : Formula} {P : Formula → Prop} {v w : Variable} {q : Quantifier}
  {op : Connective} {b : Branch} {p : Position}

@[simp]
theorem at?_nil (f : Formula) : f.at? [] = some f := by
  cases f <;> rfl

theorem at?_append (f : Formula) (p p' : Position) :
    f.at? (p ++ p') = (f.at? p).bind (fun g => g.at? p') := by
  induction p generalizing f with
  | nil => rw [List.nil_append, at?_nil, Option.bind_some]
  | cons b p ih =>
    cases f with
    | equality l r => cases b <;> rfl
    | neg f => cases b <;> first | exact ih f | rfl
    | binary op l r => cases b <;> first | exact ih l | exact ih r | rfl
    | quantified q v f => cases b <;> first | exact ih f | rfl

def Everywhere (P : Formula → Prop) (f : Formula) : Prop := ∀ p g, f.at? p = some g → P g

theorem everywhere_equality {l r : Term} :
    (equality l r).Everywhere P ↔ P (equality l r) := by
  constructor
  · intro h
    exact h [] _ rfl
  · intro h p g hg
    cases p with
    | nil => cases hg; exact h
    | cons b p => cases b <;> cases hg

theorem everywhere_neg : (neg f).Everywhere P ↔ P (neg f) ∧ f.Everywhere P := by
  constructor
  · intro h
    exact ⟨h [] _ rfl, fun p => h (.body :: p)⟩
  · rintro ⟨hhere, hbelow⟩ p g hg
    cases p with
    | nil => cases hg; exact hhere
    | cons b p =>
      cases b with
      | body => exact hbelow p g hg
      | left | right => cases hg

theorem everywhere_binary :
    (binary op l r).Everywhere P ↔ P (binary op l r) ∧ l.Everywhere P ∧ r.Everywhere P := by
  constructor
  · intro h
    exact ⟨h [] _ rfl, fun p => h (.left :: p), fun p => h (.right :: p)⟩
  · rintro ⟨hhere, hleft, hright⟩ p g hg
    cases p with
    | nil => cases hg; exact hhere
    | cons b p =>
      cases b with
      | body => cases hg
      | left => exact hleft p g hg
      | right => exact hright p g hg

theorem everywhere_quantified :
    (quantified q v f).Everywhere P ↔ P (quantified q v f) ∧ f.Everywhere P := by
  constructor
  · intro h
    exact ⟨h [] _ rfl, fun p => h (.body :: p)⟩
  · rintro ⟨hhere, hbelow⟩ p g hg
    cases p with
    | nil => cases hg; exact hhere
    | cons b p =>
      cases b with
      | body => exact hbelow p g hg
      | left | right => cases hg

def QuantifiedAt (f : Formula) (p : Position) (v : Variable) : Prop :=
  ∃ q body, f.at? p = some (quantified q v body)

/-- The bound variables are those of the quantifiers that occur. -/
theorem notMem_quantifiedVars_iff :
    v ∉ f.quantifiedVars ↔ f.Everywhere (fun g => ∀ q body, g ≠ quantified q v body) := by
  induction f with
  | equality l r => simp [everywhere_equality, quantifiedVars]
  | neg f ih => simp [everywhere_neg, quantifiedVars, ih]
  | binary op l r ihl ihr => simp [everywhere_binary, quantifiedVars, ihl, ihr]
  | quantified q w f ih =>
    simp [everywhere_quantified, quantifiedVars, ih, eq_comm]

theorem mem_quantifiedVars_iff : v ∈ f.quantifiedVars ↔ ∃ p, f.QuantifiedAt p v := by
  rw [← not_iff_not, notMem_quantifiedVars_iff]
  constructor
  · rintro h ⟨p, q, body, hp⟩
    exact h p _ hp q body rfl
  · rintro h p _ hp q body rfl
    exact h ⟨p, q, body, hp⟩

/-- A quantifier of `v` stands at position `p`, and another one above it. -/
def RequantifiedAt (f : Formula) (p : Position) (v : Variable) : Prop :=
  f.QuantifiedAt p v ∧ ∃ above, above <+: p ∧ above ≠ p ∧ f.QuantifiedAt above v

/-- A formula with the connective `op` stands at position `p`, and `v` is free on
one side of it and bound on the other. -/
def CrossedAt (f : Formula) (p : Position) (op : Connective) (v : Variable) : Prop :=
  ∃ l r, f.at? p = some (binary op l r) ∧
    (v ∈ l.freeVars ∧ v ∈ r.boundVars ∨ v ∈ r.freeVars ∧ v ∈ l.boundVars)

/-- The violation occurs at position `p`, and `v` is responsible for it. -/
def ViolatedAt (f : Formula) (p : Position) (v : Variable) : Violation → Prop
  | .requantified => f.RequantifiedAt p v
  | .crossed op => f.CrossedAt p op v

/-- What a formula must look like at its outermost connective or quantifier. -/
def QuantifiedWellHere : Formula → Prop
  | equality _ _ => True
  | neg _ => True
  | binary _ l r => (∀ v ∈ l.freeVars, v ∉ r.boundVars) ∧ (∀ v ∈ r.freeVars, v ∉ l.boundVars)
  | quantified _ v f => v ∉ f.boundVars

theorem wellQuantified_iff_everywhere : f.WellQuantified ↔ f.Everywhere QuantifiedWellHere := by
  induction f with
  | equality l r => simp [WellQuantified, everywhere_equality, QuantifiedWellHere]
  | neg f ih => simp [WellQuantified, everywhere_neg, QuantifiedWellHere, ih]
  | binary op l r ihl ihr =>
    simp only [WellQuantified, everywhere_binary, QuantifiedWellHere, ihl, ihr, mem_boundVars]
    tauto
  | quantified q v f ih =>
    simp only [WellQuantified, everywhere_quantified, QuantifiedWellHere, ih, mem_boundVars]

/-- What stands below a quantifier stands in its body. -/
theorem exists_requantifiedAt_iff :
    (∃ p, f.RequantifiedAt p v) ↔
      ∃ p q body, f.at? p = some (quantified q v body) ∧ v ∈ body.quantifiedVars := by
  constructor
  · rintro ⟨_, ⟨q, body, hbelow⟩, above, ⟨rest, rfl⟩, hne, q', body', habove⟩
    refine ⟨above, q', body', habove, mem_quantifiedVars_iff.mpr ?_⟩
    rw [at?_append, habove, Option.bind_some] at hbelow
    match rest with
    | [] => exact absurd (List.append_nil above).symm hne
    | .body :: rest => exact ⟨rest, q, body, hbelow⟩
    | .left :: _ => cases hbelow
    | .right :: _ => cases hbelow
  · rintro ⟨p, q, body, hp, hv⟩
    obtain ⟨p', q', body', hp'⟩ := mem_quantifiedVars_iff.mp hv
    refine ⟨p ++ .body :: p', ⟨q', body', ?_⟩, p, List.prefix_append .., ?_, q, body, hp⟩
    · rw [at?_append, hp, Option.bind_some]
      exact hp'
    · intro heq
      cases List.self_eq_append_right.mp heq

theorem everywhere_quantifiedWellHere_iff :
    f.Everywhere QuantifiedWellHere ↔ (∀ p v, ¬ f.RequantifiedAt p v) ∧
      ∀ p op l r, f.at? p = some (binary op l r) →
        (∀ v ∈ l.freeVars, v ∉ r.boundVars) ∧ (∀ v ∈ r.freeVars, v ∉ l.boundVars) := by
  constructor
  · intro h
    refine ⟨?_, fun p op l r hp => h p _ hp⟩
    intro p v hv
    obtain ⟨p', q, body, hp', hbody⟩ := exists_requantifiedAt_iff.mp ⟨p, hv⟩
    exact h p' _ hp' (mem_boundVars.mpr hbody)
  · rintro ⟨hnested, hcrossed⟩ p g hg
    cases g with
    | equality l r => trivial
    | neg g => trivial
    | binary op l r => exact hcrossed p op l r hg
    | quantified q v g =>
      intro hv
      obtain ⟨p', hp'⟩ := exists_requantifiedAt_iff.mpr ⟨p, q, g, hg, mem_boundVars.mp hv⟩
      exact hnested p' v hp'

/-- A complaint about a formula that stands below quantifiers of the variables in
`path`: it names a violation within the formula, or a quantifier of one of these
variables. -/
structure Blamed (f : Formula) (path : SortedSet Variable) (m : Malformation) : Prop where
  located : f.at? m.position = some m.formula
  violated : f.ViolatedAt m.position m.culprit m.violation ∨
    m.violation = .requantified ∧ m.culprit ∈ path ∧ f.QuantifiedAt m.position m.culprit

section Below

variable (part : ∀ p, f.at? (b :: p) = g.at? p)

include part

theorem QuantifiedAt.below (h : g.QuantifiedAt p v) : f.QuantifiedAt (b :: p) v := by
  obtain ⟨q, body, hp⟩ := h
  exact ⟨q, body, (part p).trans hp⟩

/-- A violation within a part is one of the whole formula. -/
theorem ViolatedAt.below {violation : Violation} (h : g.ViolatedAt p v violation) :
    f.ViolatedAt (b :: p) v violation := by
  cases violation with
  | requantified =>
    obtain ⟨hhere, above, hprefix, hne, habove⟩ := h
    refine ⟨hhere.below part, b :: above, (List.prefix_cons_inj b).mpr hprefix, ?_,
      habove.below part⟩
    intro heq
    exact hne (List.cons.inj heq).2
  | crossed op =>
    obtain ⟨l, r, hp, hcrossed⟩ := h
    exact ⟨l, r, (part p).trans hp, hcrossed⟩

theorem Blamed.below {path : SortedSet Variable} {m : Malformation} (h : g.Blamed path m) :
    f.Blamed path (m.below b) := by
  refine ⟨(part _).trans h.located, ?_⟩
  rcases h.violated with hwithin | ⟨hkind, hpath, hhere⟩
  · exact Or.inl (hwithin.below part)
  · exact Or.inr ⟨hkind, hpath, hhere.below part⟩

end Below

/-- A quantifier adds its variable to those that may not be quantified below it,
and it is the other quantifier if its variable is. -/
theorem Blamed.body {path : SortedSet Variable} {m : Malformation}
    (h : f.Blamed (path.insert w) m) : (quantified q w f).Blamed path (m.below .body) := by
  have part : ∀ p, (quantified q w f).at? (.body :: p) = f.at? p := fun _ => rfl
  refine ⟨h.located, ?_⟩
  rcases h.violated with hwithin | ⟨hkind, hpath, hhere⟩
  · exact Or.inl (hwithin.below part)
  · rcases SortedSet.mem_insert.mp hpath with hw | hpath
    · refine Or.inl ?_
      rw [Malformation.below, hkind]
      exact ⟨hhere.below part, [], List.nil_prefix, (List.cons_ne_nil _ _).symm, q, f,
        by rw [hw, at?_nil]⟩
    · exact Or.inr ⟨hkind, hpath, hhere.below part⟩

theorem mem_of_toList_inter {s t : SortedSet Variable} {rest : List Variable}
    (h : (s.inter t).toList = v :: rest) : v ∈ s ∧ v ∈ t := by
  rw [← SortedSet.mem_inter, SortedSet.mem_def, h]
  exact List.mem_cons_self ..

/-- Once both sides of a connective are found to be well quantified, the sets handed up are
their free and bound variables. -/
theorem blamed_of_wellFormedBelow {path : SortedSet Variable} {m : Malformation}
    (h : f.wellFormedBelow path = .error m) : f.Blamed path m := by
  induction f generalizing path m with
  | equality l r => cases h
  | neg f ih =>
    obtain ⟨m, hm, rfl⟩ := mapError_eq_error_iff.mp h
    exact (ih hm).below (fun _ => rfl)
  | binary op l r ihl ihr =>
    rw [wellFormedBelow] at h
    rcases bind_eq_error_iff.mp h with h | ⟨⟨lfree, lbound⟩, hl, h⟩
    · obtain ⟨m, hm, rfl⟩ := mapError_eq_error_iff.mp h
      exact (ihl hm).below (fun _ => rfl)
    rcases bind_eq_error_iff.mp h with h | ⟨⟨rfree, rbound⟩, hr, h⟩
    · obtain ⟨m, hm, rfl⟩ := mapError_eq_error_iff.mp h
      exact (ihr hm).below (fun _ => rfl)
    obtain ⟨-, -, rfl, rfl⟩ := wellFormedBelow_eq_ok_iff.mp (mapError_eq_ok_iff.mp hl)
    obtain ⟨-, -, rfl, rfl⟩ := wellFormedBelow_eq_ok_iff.mp (mapError_eq_ok_iff.mp hr)
    dsimp only at h
    split at h
    · next hclash =>
      cases h
      exact ⟨rfl, Or.inl ⟨l, r, rfl, Or.inl (mem_of_toList_inter hclash)⟩⟩
    · next hclash =>
      cases h
      exact ⟨rfl, Or.inl ⟨l, r, rfl, Or.inr (mem_of_toList_inter hclash)⟩⟩
    · cases h
  | quantified q w f ih =>
    rw [wellFormedBelow] at h
    split at h
    · next hw =>
      cases h
      exact ⟨rfl, Or.inr ⟨rfl, SortedSet.contains_iff.mp hw, q, f, rfl⟩⟩
    · rcases bind_eq_error_iff.mp h with h | ⟨⟨free, bound⟩, -, h⟩
      · obtain ⟨m, hm, rfl⟩ := mapError_eq_error_iff.mp h
        exact (ih hm).body
      · cases h

/-- Of the whole formula nothing stands below a quantifier further up. -/
theorem violated_of_checkWellFormed {m : Malformation} (h : f.checkWellFormed = .error m) :
    f.at? m.position = some m.formula ∧ f.ViolatedAt m.position m.culprit m.violation := by
  obtain ⟨hlocated, hviolated⟩ := blamed_of_wellFormedBelow (map_eq_error_iff.mp h)
  refine ⟨hlocated, hviolated.resolve_right ?_⟩
  rintro ⟨-, hpath, -⟩
  exact SortedSet.not_mem_empty _ hpath

/-- The check succeeds exactly if no quantifier stands below another one of the
same variable and no variable is free on one side of a connective and bound on
the other. When it fails, the subformula that it names stands where it says, and
the variable that it names violates there what it says is violated. -/
theorem check_decides_and_blames (f : Formula) :
    (f.checkWellFormed = .ok () ↔ (∀ p v, ¬ f.RequantifiedAt p v) ∧
      ∀ p op l r, f.at? p = some (binary op l r) →
        (∀ v ∈ l.freeVars, v ∉ r.boundVars) ∧ (∀ v ∈ r.freeVars, v ∉ l.boundVars)) ∧
    ∀ m, f.checkWellFormed = .error m →
      f.at? m.position = some m.formula ∧ f.ViolatedAt m.position m.culprit m.violation := by
  refine ⟨?_, fun m => violated_of_checkWellFormed⟩
  rw [checkWellFormed_iff, wellQuantified_iff_everywhere, everywhere_quantifiedWellHere_iff]

/-- A quantifier two steps below another one, and a variable that is bound on the
right of a connective only. -/
theorem check_decides_and_blames_nested :
    let a := Variable.austere 0
    let inner := thereIs a (equality (.succ (.var a)) .zero)
    let nested := forAll a (implies (equality (.var a) .zero) (neg inner))
    let crossed := implies (equality (.var a) .zero) (neg inner)
    (nested.checkWellFormed = .error ⟨[.body, .right, .body], inner, a, .requantified⟩ ∧
      nested.at? [.body, .right, .body] = some inner ∧
      nested.RequantifiedAt [.body, .right, .body] a) ∧
    (crossed.checkWellFormed = .error ⟨[], crossed, a, .crossed .implies⟩ ∧
      crossed.at? [] = some crossed ∧ crossed.CrossedAt [] .implies a) := by
  intro a inner nested crossed
  have hnested : nested.checkWellFormed =
      .error ⟨[.body, .right, .body], inner, a, .requantified⟩ := by decide
  have hcrossed : crossed.checkWellFormed = .error ⟨[], crossed, a, .crossed .implies⟩ := by decide
  exact ⟨⟨hnested, (check_decides_and_blames nested).2 _ hnested⟩,
    hcrossed, (check_decides_and_blames crossed).2 _ hcrossed⟩

end Formula

end Typographical
