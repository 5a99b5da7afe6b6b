import Typographical.Formula.Alteration
import Typographical.Proofs.Malformation

/-!
# Occurrences and their numbers

A subformula is named by its position, and the positions at which a change
applies are numbered from zero in the order in which the subformulas begin in the
text. Altering a formula at a number changes the subformula at the position that
has the number, and nothing else; it fails exactly if no position has it.

The same is done by a walk with a counter that all parts of the formula share and
that goes up at each match. The counter is a word. It never passes the number
looked for, so it does not wrap around.
-/

namespace Typographical

/-- The subformula at the first position begins before the one at the second: it
encloses it, or it stands on the left where the two part. -/
def Position.Before (p q : Position) : Prop :=
  List.Lex (fun b b' => b = .left ∧ b' = .right) p q

/-- A formula with a part of it left open, one step down. -/
inductive Frame where
  | neg
  | quantified (q : Quantifier) (v : Variable)
  | left (op : Connective) (r : Formula)
  | right (op : Connective) (l : Formula)

namespace Frame

def fill : Frame → Formula → Formula
  | neg, f => .neg f
  | quantified q v, f => .quantified q v f
  | left op r, f => .binary op f r
  | right op l, f => .binary op l f

def branch : Frame → Branch
  | neg => .body
  | quantified _ _ => .body
  | left _ _ => .left
  | right _ _ => .right

end Frame

namespace Formula

variable {change : Formula → Option Formula} {f g x y z : Formula} {p q : Position} {b : Branch}
  {c : Frame} {n : Nat}

theorem at?_fill (c : Frame) (f : Formula) (p : Position) :
    (c.fill f).at? (c.branch :: p) = f.at? p := by
  cases c <;> rfl

theorem at?_fill_of_ne (h : b ≠ c.branch) (f g : Formula) (p : Position) :
    (c.fill f).at? (b :: p) = (c.fill g).at? (b :: p) := by
  cases c <;> cases b <;> first | rfl | exact absurd rfl h

/-- A position below the top leads into a part. -/
theorem exists_fill_of_at? (h : f.at? (b :: p) = some x) :
    ∃ (c : Frame) (g : Formula), f = c.fill g ∧ b = c.branch ∧ g.at? p = some x := by
  cases f with
  | equality l r => cases b <;> cases h
  | neg f =>
    cases b with
    | body => exact ⟨.neg, f, rfl, rfl, h⟩
    | left => cases h
    | right => cases h
  | binary op l r =>
    cases b with
    | body => cases h
    | left => exact ⟨.left op r, l, rfl, rfl, h⟩
    | right => exact ⟨.right op l, r, rfl, rfl, h⟩
  | quantified k v f =>
    cases b with
    | body => exact ⟨.quantified k v, f, rfl, rfl, h⟩
    | left => cases h
    | right => cases h

/-- The formula with `g` at a position in place of what stands there. -/
def put : Formula → Position → Formula → Formula
  | _, [], g => g
  | neg f, .body :: p, g => neg (f.put p g)
  | quantified k v f, .body :: p, g => quantified k v (f.put p g)
  | binary op l r, .left :: p, g => binary op (l.put p g) r
  | binary op l r, .right :: p, g => binary op l (r.put p g)
  | f, _ :: _, _ => f

theorem put_nil (f g : Formula) : f.put [] g = g := by
  cases f <;> rfl

theorem put_fill (c : Frame) (f g : Formula) (p : Position) :
    (c.fill f).put (c.branch :: p) g = c.fill (f.put p g) := by
  cases c <;> rfl

/-- What is put somewhere stands there. -/
theorem at?_put (h : f.at? p = some x) (y : Formula) : (f.put p y).at? p = some y := by
  induction p generalizing f with
  | nil => rw [put_nil, at?_nil]
  | cons b p ih =>
    obtain ⟨c, g, rfl, rfl, hg⟩ := exists_fill_of_at? h
    rw [put_fill, at?_fill, ih hg]

/-- Neither above nor below the position does anything change. -/
theorem at?_put_of_apart (h : f.at? p = some x) (hpq : ¬ p <+: q) (hqp : ¬ q <+: p)
    (y : Formula) : (f.put p y).at? q = f.at? q := by
  induction p generalizing f q with
  | nil => exact absurd List.nil_prefix hpq
  | cons b p ih =>
    obtain ⟨c, g, rfl, rfl, hg⟩ := exists_fill_of_at? h
    cases q with
    | nil => exact absurd List.nil_prefix hqp
    | cons b q =>
      rw [put_fill]
      by_cases hb : b = c.branch
      · subst hb
        rw [List.prefix_cons_inj] at hpq hqp
        rw [at?_fill, at?_fill, ih hg hpq hqp]
      · exact at?_fill_of_ne hb _ _ q

/-- What was there can be put back. -/
theorem put_put (h : f.at? p = some x) (y : Formula) : (f.put p y).put p x = f := by
  induction p generalizing f with
  | nil =>
    rw [at?_nil, Option.some.injEq] at h
    rw [put_nil, h]
  | cons b p ih =>
    obtain ⟨c, g, rfl, rfl, hg⟩ := exists_fill_of_at? h
    rw [put_fill, put_fill, ih hg]

theorem mem_positions_iff : p ∈ f.positions ↔ ∃ x, f.at? p = some x := by
  induction f generalizing p with
  | equality l r => rcases p with _ | ⟨_ | _ | _, p⟩ <;> simp [positions, at?]
  | neg f ih => rcases p with _ | ⟨_ | _ | _, p⟩ <;> simp [positions, at?, ih]
  | binary op l r ihl ihr => rcases p with _ | ⟨_ | _ | _, p⟩ <;> simp [positions, at?, ihl, ihr]
  | quantified k v f ih => rcases p with _ | ⟨_ | _ | _, p⟩ <;> simp [positions, at?, ih]

theorem pairwise_map_branch (b : Branch) {ps : List Position} (h : ps.Pairwise Position.Before) :
    (ps.map (b :: ·)).Pairwise Position.Before := by
  rw [List.pairwise_map]
  exact h.imp .cons

/-- A formula begins before all of its parts. -/
theorem pairwise_cons_nil {ps : List Position} (h : ps.Pairwise Position.Before)
    (hne : [] ∉ ps) : ([] :: ps).Pairwise Position.Before := by
  refine List.Pairwise.cons (fun p hp => ?_) h
  cases p with
  | nil => exact absurd hp hne
  | cons b p => exact .nil

theorem pairwise_positions (f : Formula) : f.positions.Pairwise Position.Before := by
  induction f with
  | equality l r => exact List.pairwise_singleton ..
  | neg f ih => exact pairwise_cons_nil (pairwise_map_branch _ ih) (by simp)
  | quantified k v f ih => exact pairwise_cons_nil (pairwise_map_branch _ ih) (by simp)
  | binary op l r ihl ihr =>
    refine pairwise_cons_nil (List.pairwise_append.mpr
      ⟨pairwise_map_branch _ ihl, pairwise_map_branch _ ihr, ?_⟩) (by simp)
    intro p hp q hq
    obtain ⟨p, -, rfl⟩ := List.mem_map.mp hp
    obtain ⟨q, -, rfl⟩ := List.mem_map.mp hq
    exact .rel ⟨rfl, rfl⟩

/-- The positions of the subformulas that `change` applies to, in the order in
which these begin. -/
def sites (change : Formula → Option Formula) (f : Formula) : List Position :=
  f.positions.filter (fun p => ((f.at? p).bind change).isSome)

theorem mem_sites_iff :
    p ∈ f.sites change ↔ ∃ x y, f.at? p = some x ∧ change x = some y := by
  rw [sites, List.mem_filter, mem_positions_iff, Option.isSome_iff_exists]
  simp only [Option.bind_eq_some_iff]
  constructor
  · rintro ⟨-, y, x, here, applies⟩
    exact ⟨x, y, here, applies⟩
  · rintro ⟨x, y, here, applies⟩
    exact ⟨⟨x, here⟩, y, x, here, applies⟩

/-- The top of a formula, if `change` applies to the whole of it. -/
def top (change : Formula → Option Formula) (f : Formula) : List Position :=
  if (change f).isSome then [[]] else []

/-- The matches within a part, seen from the whole formula. -/
theorem filter_map_branch (part : ∀ p, f.at? (b :: p) = g.at? p) :
    (g.positions.map (b :: ·)).filter (fun p => ((f.at? p).bind change).isSome) =
      (g.sites change).map (b :: ·) := by
  rw [List.filter_map, sites]
  simp only [Function.comp_def, part]

theorem sites_eq {inner : List Position} (h : f.positions = [] :: inner) :
    f.sites change =
      f.top change ++ inner.filter (fun p => ((f.at? p).bind change).isSome) := by
  rw [sites, h, List.filter_cons, at?_nil, top]
  dsimp only [Option.bind]
  split <;> rfl

theorem sites_equality (l r : Term) :
    (equality l r).sites change = (equality l r).top change := by
  rw [sites_eq (f := equality l r) rfl, List.filter_nil, List.append_nil]

theorem sites_neg (f : Formula) :
    (neg f).sites change = (neg f).top change ++ (f.sites change).map (.body :: ·) := by
  rw [sites_eq (f := neg f) rfl, filter_map_branch (f := neg f) (fun _ => rfl)]

theorem sites_quantified (k : Quantifier) (v : Variable) (f : Formula) :
    (quantified k v f).sites change =
      (quantified k v f).top change ++ (f.sites change).map (.body :: ·) := by
  rw [sites_eq (f := quantified k v f) rfl,
    filter_map_branch (f := quantified k v f) (fun _ => rfl)]

theorem sites_binary (op : Connective) (l r : Formula) :
    (binary op l r).sites change = (binary op l r).top change ++
      ((l.sites change).map (.left :: ·) ++ (r.sites change).map (.right :: ·)) := by
  rw [sites_eq (f := binary op l r) rfl, List.filter_append,
    filter_map_branch (f := binary op l r) (g := l) (fun _ => rfl),
    filter_map_branch (f := binary op l r) (g := r) (fun _ => rfl)]

theorem length_top (change : Formula → Option Formula) (f : Formula) :
    (f.top change).length = (change f).isSome.toNat := by
  rw [top]
  cases (change f).isSome <;> rfl

/-- There are as many positions as matches are counted. -/
theorem length_sites (change : Formula → Option Formula) (f : Formula) :
    (f.sites change).length = f.countMatches (fun g => (change g).isSome) := by
  induction f with
  | equality l r => rw [sites_equality, length_top, countMatches]
  | neg f ih => rw [sites_neg, List.length_append, List.length_map, length_top, ih, countMatches]
  | binary op l r ihl ihr =>
    rw [sites_binary, List.length_append, List.length_append, List.length_map, List.length_map,
      length_top, ihl, ihr, countMatches, Nat.add_assoc]
  | quantified k v f ih =>
    rw [sites_quantified, List.length_append, List.length_map, length_top, ih, countMatches]

/-- What comes of asking for the match number `n` among some positions of a
formula: the formula with this match changed, or how far `n` goes beyond them. -/
inductive Picked (change : Formula → Option Formula) (f : Formula) (among : List Position)
    (n : Nat) : Except Nat Formula → Prop
  | changed {p : Position} {x y : Formula} (nth : among[n]? = some p) (here : f.at? p = some x)
      (applies : change x = some y) : Picked change f among n (.ok (f.put p y))
  | beyond {m : Nat} (far : n = among.length + m) : Picked change f among n (.error m)

variable {among more : List Position} {outcome : Except Nat Formula}

/-- What is picked within a part is picked within the whole formula. -/
theorem Picked.fill (c : Frame) (h : Picked change f among n outcome) :
    Picked change (c.fill f) (among.map (c.branch :: ·)) n (outcome.map c.fill) := by
  cases h with
  | @changed p x y nth here applies =>
    rw [Except.map, ← put_fill]
    refine .changed ?_ ((at?_fill c f p).trans here) applies
    rw [List.getElem?_map, nth]
    rfl
  | beyond far => exact .beyond (by rw [List.length_map, far])

/-- If the number goes beyond some positions, the rest of it is looked for among
those that follow. -/
theorem Picked.append {next : Nat → Except Nat Formula} (h : Picked change f among n outcome)
    (hnext : ∀ m, Picked change f more m (next m)) :
    Picked change f (among ++ more) n (outcome.tryCatch next) := by
  cases h with
  | changed nth here applies =>
    refine .changed ?_ here applies
    rw [List.getElem?_append_left (List.getElem?_eq_some_iff.mp nth).1, nth]
  | @beyond m far =>
    subst far
    have hmore := hnext m
    rw [Except.tryCatch]
    generalize next m = outcome at hmore
    cases hmore with
    | changed nth here applies =>
      refine .changed ?_ here applies
      rw [List.getElem?_append_right (Nat.le_add_right ..), Nat.add_sub_cancel_left, nth]
    | beyond far => exact .beyond (by rw [List.length_append, far, Nat.add_assoc])

/-- Change the whole formula, if this is a match and has the number zero. -/
def alterTop (change : Formula → Option Formula) (f : Formula) (n : Nat) : Except Nat Formula :=
  match change f, n with
  | some g, 0 => .ok g
  | some _, n + 1 => .error n
  | none, n => .error n

theorem picked_alterTop (change : Formula → Option Formula) (f : Formula) (n : Nat) :
    Picked change f (f.top change) n (f.alterTop change n) := by
  cases hchange : change f with
  | none =>
    simp only [alterTop, top, hchange]
    exact .beyond (Nat.zero_add n).symm
  | some g =>
    cases n with
    | zero =>
      simp only [alterTop, top, hchange]
      rw [← put_nil f g]
      exact .changed rfl (at?_nil f) hchange
    | succ n =>
      simp only [alterTop, top, hchange]
      exact .beyond (Nat.add_comm n 1)

theorem alterFrom_equality (l r : Term) (n : Nat) :
    (equality l r).alterFrom change n = (equality l r).alterTop change n := by
  rw [alterFrom.eq_def]
  rfl

theorem alterFrom_neg (f : Formula) (n : Nat) : (neg f).alterFrom change n =
    ((neg f).alterTop change n).tryCatch (fun m => (f.alterFrom change m).map neg) := by
  rw [alterFrom.eq_def]
  cases hchange : change (neg f) <;> cases n <;> simp [alterTop, hchange, Except.tryCatch]

theorem alterFrom_quantified (k : Quantifier) (v : Variable) (f : Formula) (n : Nat) :
    (quantified k v f).alterFrom change n = ((quantified k v f).alterTop change n).tryCatch
      (fun m => (f.alterFrom change m).map (quantified k v)) := by
  rw [alterFrom.eq_def]
  cases hchange : change (quantified k v f) <;> cases n <;>
    simp [alterTop, hchange, Except.tryCatch]

theorem alterFrom_binary (op : Connective) (l r : Formula) (n : Nat) :
    (binary op l r).alterFrom change n = ((binary op l r).alterTop change n).tryCatch (fun m =>
      ((l.alterFrom change m).map (binary op · r)).tryCatch
        (fun k => (r.alterFrom change k).map (binary op l))) := by
  rw [alterFrom.eq_def]
  cases hchange : change (binary op l r) with
  | none =>
    simp only [alterTop, hchange, Except.tryCatch]
    cases l.alterFrom change n <;> rfl
  | some g =>
    cases n with
    | zero => simp only [alterTop, hchange, Except.tryCatch]
    | succ n =>
      simp only [alterTop, hchange, Except.tryCatch]
      cases l.alterFrom change n <;> rfl

/-- Altering a formula at a number picks the match that has it. -/
theorem picked_alterFrom (change : Formula → Option Formula) (f : Formula) (n : Nat) :
    Picked change f (f.sites change) n (f.alterFrom change n) := by
  induction f generalizing n with
  | equality l r =>
    rw [sites_equality, alterFrom_equality]
    exact picked_alterTop ..
  | neg f ih =>
    rw [sites_neg, alterFrom_neg]
    exact (picked_alterTop ..).append (fun m => (ih m).fill .neg)
  | quantified k v f ih =>
    rw [sites_quantified, alterFrom_quantified]
    exact (picked_alterTop ..).append (fun m => (ih m).fill (.quantified k v))
  | binary op l r ihl ihr =>
    rw [sites_binary, alterFrom_binary]
    exact (picked_alterTop ..).append (fun m =>
      ((ihl m).fill (.left op r)).append (fun k => (ihr k).fill (.right op l)))

theorem alterNth?_eq_some_iff : f.alterNth? change n = some g ↔
    ∃ p x y, (f.sites change)[n]? = some p ∧ f.at? p = some x ∧ change x = some y ∧
      g = f.put p y := by
  have h := picked_alterFrom change f n
  rw [alterNth?]
  generalize f.alterFrom change n = outcome at h
  cases h with
  | @changed p x y nth here applies =>
    constructor
    · intro hg
      cases hg
      exact ⟨p, x, y, nth, here, applies, rfl⟩
    · rintro ⟨p', x', y', nth', here', applies', rfl⟩
      cases nth.symm.trans nth'
      cases here.symm.trans here'
      cases applies.symm.trans applies'
      rfl
  | beyond far =>
    constructor
    · intro hg
      cases hg
    · rintro ⟨p, x, y, nth, -⟩
      have := (List.getElem?_eq_some_iff.mp nth).1
      omega

theorem alterNth?_isSome_iff : (f.alterNth? change n).isSome = true ↔
    n < f.countMatches (fun g => (change g).isSome) := by
  have h := picked_alterFrom change f n
  rw [alterNth?, ← length_sites]
  generalize f.alterFrom change n = outcome at h
  cases h with
  | changed nth here applies => simpa using (List.getElem?_eq_some_iff.mp nth).1
  | beyond far => simp [far]

section Walk

variable (change : Formula → Option Formula) (n : UInt64)

/-- Come to a formula. If it is a match, either it is the one looked for, or it is
counted; then its parts are visited. -/
def visit (f : Formula) (parts : StateM UInt64 (Formula × Bool)) :
    StateM UInt64 (Formula × Bool) := do
  match change f with
  | none => parts
  | some g =>
    if (← get) = n then
      return (g, true)
    else
      modify (· + 1)
      parts

/-- Go into a part, and on to the rest if the match was not met there. -/
def within (c : Frame) (part rest : StateM UInt64 (Formula × Bool)) :
    StateM UInt64 (Formula × Bool) := do
  match ← part with
  | (g, true) => return (c.fill g, true)
  | (_, false) => rest

/-- Visit a formula and its parts until the match number `n` is met and changed. -/
def walk : Formula → StateM UInt64 (Formula × Bool)
  | equality l r => visit change n (equality l r) (return (equality l r, false))
  | neg f => visit change n (neg f) (within .neg f.walk (return (neg f, false)))
  | quantified k v f => visit change n (quantified k v f)
    (within (.quantified k v) f.walk (return (quantified k v f, false)))
  | binary op l r => visit change n (binary op l r)
    (within (.left op r) l.walk
      (within (.right op l) r.walk (return (binary op l r, false))))

/-- The formula after a walk that begins with nothing counted, and whether it was
changed. -/
def rewriteNth (f : Formula) : Formula × Bool := ((f.walk change n).run 0).1

end Walk

/-- A walk comes to what altering gives. If it does not meet the match, it leaves
the formula as it is, and its counter falls short of the number by what is left
of it. -/
def Settles (n : UInt64) (f : Formula) : Except Nat Formula → (Formula × Bool) × UInt64 → Prop
  | .ok g, ended => ended.1 = (g, true)
  | .error m, ended => ended.1 = (f, false) ∧ ended.2.toNat + m = n.toNat

variable {target count : UInt64} {parts rest : StateM UInt64 (Formula × Bool)} {k : Nat}
  {next : Nat → Except Nat Formula}

/-- The counter is never beyond the number looked for, so it can count one more. -/
theorem settles_visit (h : count.toNat + k = target.toNat)
    (hparts : ∀ count k, count.toNat + k = target.toNat →
      Settles target f (next k) (parts.run count)) :
    Settles target f ((f.alterTop change k).tryCatch next)
      ((visit change target f parts).run count) := by
  cases hchange : change f with
  | none =>
    simp only [alterTop, visit, hchange, Except.tryCatch]
    exact hparts count k h
  | some g =>
    cases k with
    | zero =>
      obtain rfl : count = target := UInt64.toNat_inj.mp h
      simp only [alterTop, visit, hchange, Except.tryCatch, StateT.run_bind, StateT.run_get]
      exact congrArg (fun m : StateM UInt64 (Formula × Bool) => (m.run count).1) (if_pos rfl)
    | succ k =>
      have hne : count ≠ target := by
        rintro rfl
        omega
      have hbound := target.toNat_lt
      have hcount : (count + 1).toNat = count.toNat + 1 := by
        rw [UInt64.toNat_add]
        exact Nat.mod_eq_of_lt (by simp; omega)
      have := hparts (count + 1) k (by omega)
      simpa [alterTop, visit, hchange, Except.tryCatch, hne] using this

theorem settles_within (c : Frame) (hpart : Settles target f outcome (parts.run count))
    (hrest : ∀ count m, count.toNat + m = target.toNat →
      Settles target (c.fill f) (next m) (rest.run count)) :
    Settles target (c.fill f) ((outcome.map c.fill).tryCatch next)
      ((within c parts rest).run count) := by
  cases hrun : parts.run count with
  | mk result count' =>
    rw [hrun] at hpart
    cases outcome with
    | ok g =>
      obtain rfl : result = (g, true) := hpart
      rw [within, StateT.run_bind, hrun]
      rfl
    | error m =>
      obtain ⟨rfl, hcount⟩ := hpart
      rw [within, StateT.run_bind, hrun]
      exact hrest count' m hcount

theorem tryCatch_error (x : Except Nat Formula) : x.tryCatch .error = x := by
  cases x <;> rfl

theorem settles_unchanged (f : Formula) (count : UInt64) (k : Nat)
    (h : count.toNat + k = target.toNat) :
    Settles target f (.error k) ((return (f, false) : StateM UInt64 (Formula × Bool)).run count) :=
  ⟨rfl, h⟩

/-- Walking with a counter comes to what altering gives, where altering takes the
number that the counter has still to go. -/
theorem settles_walk (change : Formula → Option Formula) (f : Formula)
    (h : count.toNat + k = target.toNat) :
    Settles target f (f.alterFrom change k) ((f.walk change target).run count) := by
  induction f generalizing count k with
  | equality l r =>
    rw [alterFrom_equality, ← tryCatch_error (alterTop ..)]
    exact settles_visit h (settles_unchanged _)
  | neg f ih =>
    rw [alterFrom_neg]
    refine settles_visit h (fun count m h => ?_)
    rw [← tryCatch_error ((f.alterFrom change m).map neg)]
    exact settles_within .neg (ih h) (settles_unchanged _)
  | quantified q v f ih =>
    rw [alterFrom_quantified]
    refine settles_visit h (fun count m h => ?_)
    rw [← tryCatch_error ((f.alterFrom change m).map (quantified q v))]
    exact settles_within (.quantified q v) (ih h) (settles_unchanged _)
  | binary op l r ihl ihr =>
    rw [alterFrom_binary]
    refine settles_visit h (fun count m h => ?_)
    refine settles_within (.left op r) (ihl h) (fun count j h => ?_)
    rw [← tryCatch_error ((r.alterFrom change j).map (binary op l))]
    exact settles_within (.right op l) (ihr h) (settles_unchanged _)

theorem rewriteNth_eq (change : Formula → Option Formula) (target : UInt64) (f : Formula) :
    f.rewriteNth change target =
      match f.alterNth? change target.toNat with
      | some g => (g, true)
      | none => (f, false) := by
  have hstart : (0 : UInt64).toNat + target.toNat = target.toNat := by simp
  have h := settles_walk change f hstart
  rw [rewriteNth, alterNth?]
  generalize f.alterFrom change target.toNat = outcome at h
  cases outcome with
  | ok g => exact h
  | error m => exact h.1

/-- The matches of a change stand at the positions in `sites`, which are in the
order in which the subformulas begin, nested ones included, and `countMatches`
counts them. Rewriting succeeds exactly if there are more of them than the number
says. It then puts at the position that has the number what the change makes of
the subformula there, and a subformula at a position that is neither above nor
below stays as it is. Otherwise the formula comes back unchanged. -/
theorem nth_match_rewritten (change : Formula → Option Formula) (n : UInt64) (f : Formula) :
    let r := f.rewriteNth change n
    ((∀ p, p ∈ f.sites change ↔ ∃ x y, f.at? p = some x ∧ change x = some y) ∧
      (f.sites change).Pairwise Position.Before ∧
      (f.sites change).length = f.countMatches (fun g => (change g).isSome) ∧
      (f.sites change).length ≤ f.positions.length) ∧
    (r.2 = true ↔ n.toNat < f.countMatches (fun g => (change g).isSome)) ∧
    (r.2 = true → ∃ p x y, (f.sites change)[n.toNat]? = some p ∧ f.at? p = some x ∧
      change x = some y ∧ r.1 = f.put p y ∧
      ∀ q, ¬ p <+: q → ¬ q <+: p → r.1.at? q = f.at? q) ∧
    (r.2 = false → r.1 = f) ∧
    f.alterNth? change n.toNat = if r.2 then some r.1 else none := by
  intro r
  refine ⟨⟨fun p => mem_sites_iff, (pairwise_positions f).filter _, length_sites change f,
    List.length_filter_le ..⟩, ?_⟩
  have hr : r = match f.alterNth? change n.toNat with
    | some g => (g, true)
    | none => (f, false) := rewriteNth_eq change n f
  rw [← alterNth?_isSome_iff]
  cases hg : f.alterNth? change n.toNat with
  | none => simp [hr, hg]
  | some g =>
    obtain ⟨p, x, y, nth, here, applies, rfl⟩ := alterNth?_eq_some_iff.mp hg
    have hr : r = (f.put p y, true) := by rw [hr, hg]
    rw [hr]
    refine ⟨by simp, fun _ => ⟨p, x, y, nth, here, applies, rfl, ?_⟩, by simp, rfl⟩
    exact fun q hpq hqp => at?_put_of_apart here hpq hqp y

end Formula

end Typographical
