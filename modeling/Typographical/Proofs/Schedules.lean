import Mathlib.Data.List.Nodup
import Mathlib.Data.List.Perm.Subperm
import Mathlib.Data.Nat.Find
import Typographical.Collection.ParallelMap

/-!
# All orders of the tasks

Whatever the order in which tasks start and finish, a result is only ever written by
its own task, and a cancellation from within comes with a failure that some task
reported: the failure is recorded first. So a task that was passed over finds a
failure recorded, unless the map was cancelled from outside.

From any point on, the tasks that are left can start and finish: a task that waits to
be launched waits for tasks that have started and not finished.
-/

namespace Typographical

namespace ParallelMap

universe u v w

section

variable {limit : Int} {count : Nat} {past events rest : List Event} {e : Event} {t : Nat}

theorem canHappenAll_append :
    canHappenAll limit count past (events ++ rest) = true ↔
      canHappenAll limit count past events = true ∧
        canHappenAll limit count (past ++ events) rest = true := by
  induction events generalizing past with
  | nil => simp [canHappenAll]
  | cons e events ih =>
    rw [List.cons_append, canHappenAll, canHappenAll, Bool.and_eq_true, Bool.and_eq_true, ih,
      List.append_assoc, List.singleton_append, and_assoc]

theorem canHappenAll_singleton :
    canHappenAll limit count past [e] = true ↔ canHappen limit count past e = true := by
  simp [canHappenAll]

theorem canHappen_start_iff :
    canHappen limit count past (.start t) = true ↔
      t < count ∧ .start t ∉ past ∧ (limit ≤ 0 ∨ (t : Int) < finishedCount past + limit) := by
  simp [canHappen, and_assoc]

theorem canHappen_finish_iff :
    canHappen limit count past (.finish t) = true ↔ .start t ∈ past ∧ .finish t ∉ past := by
  simp [canHappen]

theorem isComplete_iff :
    isComplete count events = true ↔ ∀ t < count, .finish t ∈ events := by
  simp [isComplete]

end

section

variable {limit : Int} {count : Nat} {past events rest : List Event} {e : Event} {t : Nat}

def isFinish : Event → Bool
  | .finish _ => true
  | _ => false

theorem finishedCount_eq (events : List Event) :
    finishedCount events = events.countP isFinish := rfl

theorem finishedCount_append :
    finishedCount (past ++ rest) = finishedCount past + finishedCount rest :=
  List.countP_append

/-- If the first tasks have finished, there are at least so many that have. -/
theorem le_finishedCount (h : ∀ t' < t, .finish t' ∈ past) : t ≤ finishedCount past := by
  have hsub : ((List.range t).map Event.finish).Subperm past := by
    refine List.subperm_of_subset (List.nodup_range.map fun _ _ => Event.finish.inj) ?_
    simpa [List.subset_def] using h
  have hcount : finishedCount ((List.range t).map Event.finish) = t := by
    simp [finishedCount, List.countP_map, Function.comp_def]
  calc
    t = finishedCount ((List.range t).map Event.finish) := hcount.symm
    _ ≤ finishedCount past := hsub.countP_le _

/-- What is known of the past: which tasks were launched, and that nothing but a
cancellation happens twice. -/
structure Orderly (limit : Int) (count : Nat) (past : List Event) : Prop where
  launched : ∀ t, .start t ∈ past →
    t < count ∧ (limit ≤ 0 ∨ (t : Int) < finishedCount past + limit)
  started : ∀ t, .finish t ∈ past → .start t ∈ past
  once : (past.filter (fun e => e != .cancel)).Nodup

theorem orderly_nil (limit : Int) (count : Nat) : Orderly limit count [] where
  launched := by simp
  started := by simp
  once := by simp

theorem Orderly.step (h : Orderly limit count past) (can : canHappen limit count past e = true) :
    Orderly limit count (past ++ [e]) where
  launched := by
    intro t ht
    rw [finishedCount_append]
    have hlaunched : t < count ∧ (limit ≤ 0 ∨ (t : Int) < finishedCount past + limit) := by
      rcases List.mem_append.mp ht with ht | ht
      · exact h.launched t ht
      · obtain rfl := List.mem_singleton.mp ht
        obtain ⟨hlt, -, hroom⟩ := canHappen_start_iff.mp can
        exact ⟨hlt, hroom⟩
    omega
  started := by
    intro t ht
    refine List.mem_append_left _ ?_
    rcases List.mem_append.mp ht with ht | ht
    · exact h.started t ht
    · obtain rfl := List.mem_singleton.mp ht
      exact (canHappen_finish_iff.mp can).1
  once := by
    rw [List.filter_append]
    cases e with
    | start t =>
      have := (canHappen_start_iff.mp can).2.1
      simpa [List.nodup_append, h.once] using fun e he _ => ne_of_mem_of_not_mem he this
    | finish t =>
      have := (canHappen_finish_iff.mp can).2
      simpa [List.nodup_append, h.once] using fun e he _ => ne_of_mem_of_not_mem he this
    | cancel => simpa using h.once

theorem Orderly.run (h : Orderly limit count past)
    (can : canHappenAll limit count past events = true) :
    Orderly limit count (past ++ events) := by
  induction events generalizing past with
  | nil => rwa [List.append_nil]
  | cons e events ih =>
    rw [canHappenAll, Bool.and_eq_true] at can
    rw [← List.singleton_append, ← List.append_assoc]
    exact ih (h.step can.1) can.2

theorem orderly_of_canHappenAll (can : canHappenAll limit count [] events = true) :
    Orderly limit count events :=
  (orderly_nil limit count).run can

theorem length_inOrder (count : Nat) : (inOrder count).length = 2 * count := by
  simp [inOrder, List.length_flatMap, Nat.mul_comm]

theorem Orderly.length_le (h : Orderly limit count past) :
    (past.filter (fun e => e != .cancel)).length ≤ 2 * count := by
  rw [← length_inOrder]
  refine (List.subperm_of_subset h.once fun e he => ?_).length_le
  obtain ⟨he, hne⟩ := List.mem_filter.mp he
  cases e with
  | start t => simpa [inOrder] using (h.launched t he).1
  | finish t => simpa [inOrder] using (h.launched t (h.started t he)).1
  | cancel => simp at hne

/-- There is always a task that can go on: one that has started, or else the first one
that has not, since all before it have finished. -/
theorem exists_canHappen (limit : Int) (left : ¬ isComplete count past = true) :
    ∃ e, e ≠ .cancel ∧ canHappen limit count past e = true := by
  by_cases hrunning : ∃ t, .start t ∈ past ∧ .finish t ∉ past
  · obtain ⟨t, ht⟩ := hrunning
    exact ⟨.finish t, by simp, canHappen_finish_iff.mpr ht⟩
  · push Not at hrunning
    have hleft : ∃ t, t < count ∧ .finish t ∉ past := by simpa [isComplete_iff] using left
    obtain ⟨hlt, hunfinished⟩ := Nat.find_spec hleft
    refine ⟨.start (Nat.find hleft), by simp, canHappen_start_iff.mpr ⟨hlt, ?_, ?_⟩⟩
    · exact fun hstart => hunfinished (hrunning _ hstart)
    · have : Nat.find hleft ≤ finishedCount past := by
        refine le_finishedCount fun t ht => ?_
        have := Nat.find_min hleft ht
        push Not at this
        exact this (Nat.lt_trans ht hlt)
      omega

/-- Whatever has happened, all tasks can finish without a cancellation from outside. -/
theorem exists_completion (can : canHappenAll limit count [] past = true) :
    ∃ rest, .cancel ∉ rest ∧ canHappenAll limit count [] (past ++ rest) = true ∧
      isComplete count (past ++ rest) = true := by
  induction hn : 2 * count - (past.filter (fun e => e != .cancel)).length
    using Nat.strong_induction_on generalizing past with
  | _ n ih =>
    by_cases hdone : isComplete count past = true
    · exact ⟨[], by simp, by simpa using can, by simpa using hdone⟩
    · obtain ⟨e, hne, he⟩ := exists_canHappen limit hdone
      have can' : canHappenAll limit count [] (past ++ [e]) = true :=
        canHappenAll_append.mpr ⟨can, canHappenAll_singleton.mpr he⟩
      have hlength : ((past ++ [e]).filter (fun e => e != .cancel)).length =
          (past.filter (fun e => e != .cancel)).length + 1 := by
        simp [List.filter_append, hne]
      have := (orderly_of_canHappenAll can').length_le
      obtain ⟨rest, hrest, hcan, hcomplete⟩ := ih _ (by omega) can' rfl
      rw [List.append_assoc] at hcan hcomplete
      refine ⟨e :: rest, ?_, hcan, hcomplete⟩
      simpa using ⟨hne.symm, hrest⟩

end

section

variable {α : Type u} {β : Type v} {ε : Type w} {work : α → β × Option ε} {blank : β}
  {items : List α} {events past : List Event} {e : Event} {s : State β ε} {limit : Int}
  {t : Nat} {item : α}

@[simp]
theorem report_cancelled (f : Failure ε) : (s.report f).cancelled = true := rfl

@[simp]
theorem report_failure (f : Failure ε) : (s.report f).failure = s.failure.or (some f) := rfl

/-- What is known after given events. A failure that was recorded makes the map
cancelled, and a cancellation is recorded as a failure only if it came from outside. -/
structure Reached (work : α → β × Option ε) (blank : β) (items : List α) (events : List Event)
    (s : State β ε) : Prop where
  size : s.results.length = items.length
  cell : ∀ (t : Nat) (item : α), items[t]? = some item →
    s.results[t]? = some blank ∨ s.results[t]? = some (work item).1
  running : ∀ t, (∃ p, (t, p) ∈ s.running) ↔ .start t ∈ events ∧ .finish t ∉ events
  distinct : (s.running.map Prod.fst).Nodup
  pending : ∀ t p, (t, p) ∈ s.running → ∃ item, items[t]? = some item ∧
    (p = .computed (work item).1 (work item).2 ∨ p = .skipped ∧ s.cancelled = true)
  cancelled : s.cancelled = true ↔ s.failure ≠ none ∨ .cancel ∈ events
  outside : s.failure = some .cancelled → .cancel ∈ events
  failed : ∀ reason, s.failure = some (.failed reason) →
    ∃ item ∈ items, (work item).2 = some reason
  done : s.failure = none → ∀ (t : Nat) (item : α), .finish t ∈ events → items[t]? = some item →
    s.results[t]? = some (work item).1 ∧ (work item).2 = none

theorem reached_initial (work : α → β × Option ε) (blank : β) (items : List α) :
    Reached work blank items [] (.initial blank items) where
  size := List.length_map _
  cell := by
    intro t item hitem
    left
    exact (List.getElem?_map ..).trans (congrArg _ hitem)
  running := by simp [State.initial]
  distinct := List.nodup_nil
  pending := by simp [State.initial]
  cancelled := by simp [State.initial]
  outside := by simp [State.initial]
  failed := by simp [State.initial]
  done := by simp

theorem Reached.start (h : Reached work blank items past s)
    (ho : Orderly limit items.length past)
    (can : canHappen limit items.length past (.start t) = true) :
    Reached work blank items (past ++ [.start t]) (step work items s (.start t)) := by
  obtain ⟨hlt, hnew, -⟩ := canHappen_start_iff.mp can
  obtain ⟨item, hitem⟩ : ∃ item, items[t]? = some item := ⟨_, List.getElem?_eq_getElem hlt⟩
  have hunfinished : .finish t ∉ past := fun hf => hnew (ho.started t hf)
  simp only [ParallelMap.step, hitem]
  constructor
  case size => exact h.size
  case cell => exact h.cell
  case running =>
    intro t'
    rcases eq_or_ne t' t with rfl | hne
    · simpa using hunfinished
    · simpa [hne] using h.running t'
  case distinct =>
    have habsent : ∀ p, (t, p) ∉ s.running := fun p hp => hnew ((h.running t).mp ⟨p, hp⟩).1
    rw [List.map_append]
    exact h.distinct.append (List.nodup_singleton t) (by simpa using habsent)
  case pending =>
    intro t' p hp
    rcases List.mem_append.mp hp with hp | hp
    · exact h.pending t' p hp
    · obtain ⟨rfl, rfl⟩ := Prod.mk.inj (List.mem_singleton.mp hp)
      refine ⟨item, hitem, ?_⟩
      cases hc : s.cancelled with
      | true => exact .inr ⟨rfl, rfl⟩
      | false => exact .inl rfl
  case cancelled => simpa using h.cancelled
  case outside => simpa using h.outside
  case failed => exact h.failed
  case done =>
    intro hnone t' item' hf
    exact h.done hnone t' item' (by simpa using hf)

theorem Reached.cancel (h : Reached work blank items past s) :
    Reached work blank items (past ++ [.cancel]) (step work items s .cancel) where
  size := h.size
  cell := h.cell
  running := by simpa [step] using h.running
  distinct := h.distinct
  pending := by
    intro t p hp
    obtain ⟨item, hitem, hp⟩ := h.pending t p hp
    exact ⟨item, hitem, hp.imp_right fun hp => ⟨hp.1, rfl⟩⟩
  cancelled := by simp [step]
  outside := by simp
  failed := h.failed
  done := by
    intro hnone t item hf
    exact h.done hnone t item (by simpa using hf)

/-! A task that finishes reports, stores its value and makes room, as far as it does
any of these. -/

theorem Reached.report {f : Failure ε} (h : Reached work blank items past s)
    (outside : f = .cancelled → s.cancelled = true)
    (failed : ∀ reason, f = .failed reason → ∃ item ∈ items, (work item).2 = some reason) :
    Reached work blank items past (s.report f) where
  size := h.size
  cell := h.cell
  running := h.running
  distinct := h.distinct
  pending := by
    intro t p hp
    obtain ⟨item, hitem, hp⟩ := h.pending t p hp
    exact ⟨item, hitem, hp.imp_right fun hp => ⟨hp.1, rfl⟩⟩
  cancelled := by simp
  outside := by
    intro hf
    rcases Option.or_eq_some_iff.mp hf with hf | ⟨hnone, hf⟩
    · exact h.outside hf
    · exact (h.cancelled.mp (outside (Option.some.inj hf))).resolve_left (not_not_intro hnone)
  failed := by
    intro reason hf
    rcases Option.or_eq_some_iff.mp hf with hf | ⟨-, hf⟩
    · exact h.failed reason hf
    · exact failed reason (Option.some.inj hf)
  done := by simp

theorem Reached.store (h : Reached work blank items past s) (hitem : items[t]? = some item) :
    Reached work blank items past { s with results := s.results.set t (work item).1 } := by
  have hat : (s.results.set t (work item).1)[t]? = some (work item).1 := by
    obtain ⟨hlt, -⟩ := List.getElem?_eq_some_iff.mp hitem
    exact List.getElem?_set_self (h.size ▸ hlt)
  refine { h with size := (List.length_set ..).trans h.size, cell := ?_, done := ?_ }
  · intro t' item' hitem'
    rcases eq_or_ne t' t with rfl | hne
    · obtain rfl := Option.some.inj (hitem'.symm.trans hitem)
      exact .inr hat
    · rw [List.getElem?_set_ne hne.symm]
      exact h.cell t' item' hitem'
  · intro hnone t' item' hf hitem'
    obtain ⟨hvalue, hgood⟩ := h.done hnone t' item' hf hitem'
    rcases eq_or_ne t' t with rfl | hne
    · obtain rfl := Option.some.inj (hitem'.symm.trans hitem)
      exact ⟨hat, hgood⟩
    · exact ⟨(List.getElem?_set_ne hne.symm).trans hvalue, hgood⟩

theorem Reached.leave (h : Reached work blank items past s) (hitem : items[t]? = some item)
    (good : s.failure = none → s.results[t]? = some (work item).1 ∧ (work item).2 = none) :
    Reached work blank items (past ++ [.finish t])
      { s with running := s.running.filter (fun p => p.1 != t) } where
  size := h.size
  cell := h.cell
  running := by
    intro t'
    rcases eq_or_ne t' t with rfl | hne
    · simp
    · simpa [hne] using h.running t'
  distinct := h.distinct.sublist (List.filter_sublist.map _)
  pending := by
    intro t' p hp
    exact h.pending t' p (List.mem_of_mem_filter hp)
  cancelled := by simpa using h.cancelled
  outside := by simpa using h.outside
  failed := h.failed
  done := by
    intro hnone t' item' hf hitem'
    rcases List.mem_append.mp hf with hf | hf
    · exact h.done hnone t' item' hf hitem'
    · obtain rfl : t' = t := by simpa using hf
      obtain rfl := Option.some.inj (hitem'.symm.trans hitem)
      exact good hnone

theorem Reached.finish (h : Reached work blank items past s)
    (can : canHappen limit items.length past (.finish t) = true) :
    Reached work blank items (past ++ [.finish t]) (step work items s (.finish t)) := by
  obtain ⟨p, hfind⟩ : ∃ p, s.running.find? (fun p => p.1 == t) = some (t, p) := by
    obtain ⟨p, hp⟩ := (h.running t).mpr (canHappen_finish_iff.mp can)
    have hsome : (s.running.find? (fun p => p.1 == t)).isSome :=
      List.find?_isSome.mpr ⟨(t, p), hp, beq_self_eq_true t⟩
    obtain ⟨⟨t', p'⟩, hfind⟩ := Option.isSome_iff_exists.mp hsome
    obtain rfl : t' = t := by simpa using List.find?_some hfind
    exact ⟨p', hfind⟩
  obtain ⟨item, hitem, hp⟩ := h.pending t p (List.mem_of_find?_eq_some hfind)
  simp only [ParallelMap.step, hfind, Option.map_some]
  rcases hp with rfl | ⟨rfl, hcancelled⟩
  · cases hw : (work item).2 with
    | none =>
      refine (h.store hitem).leave hitem fun _ => ⟨?_, hw⟩
      exact List.getElem?_set_self (h.size ▸ (List.getElem?_eq_some_iff.mp hitem).1)
    | some reason =>
      have hreport : Reached work blank items past (s.report (.failed reason)) := by
        refine h.report (by simp) fun reason' hreason => ?_
        obtain rfl := Failure.failed.inj hreason
        exact ⟨item, List.mem_of_getElem? hitem, hw⟩
      exact (hreport.store hitem).leave hitem (by simp)
  · exact (h.report (fun _ => hcancelled) (by simp)).leave hitem (by simp)

/-- One step. -/
theorem Reached.step (h : Reached work blank items past s) (ho : Orderly limit items.length past)
    (can : canHappen limit items.length past e = true) :
    Reached work blank items (past ++ [e]) (ParallelMap.step work items s e) := by
  cases e with
  | start t => exact h.start ho can
  | finish t => exact h.finish can
  | cancel => exact h.cancel

/-- A whole run. -/
theorem Reached.run (h : Reached work blank items past s) (ho : Orderly limit items.length past)
    (can : canHappenAll limit items.length past events = true) :
    Reached work blank items (past ++ events) (ParallelMap.run work items s events) := by
  induction events generalizing past s with
  | nil => rwa [List.append_nil]
  | cons e events ih =>
    rw [canHappenAll, Bool.and_eq_true] at can
    rw [← List.singleton_append, ← List.append_assoc]
    exact ih (h.step ho can.1) (ho.step can.1) can.2

theorem reached_run (can : canHappenAll limit items.length [] events = true) :
    Reached work blank items events (ParallelMap.run work items (.initial blank items) events) :=
  (reached_initial work blank items).run (orderly_nil limit items.length) can

/-- The tasks that run are no more than there is room for: each of them is numbered
below the tasks that have finished and the room, and so is each that has finished. -/
theorem length_running_le (hlimit : 0 < limit)
    (can : canHappenAll limit items.length [] events = true) :
    ((ParallelMap.run work items (.initial blank items) events).running.length : Int) ≤ limit := by
  have h : Reached work blank items events _ := reached_run can
  have ho := orderly_of_canHappenAll can
  generalize ParallelMap.run work items (.initial blank items) events = s at h ⊢
  have hbelow : ∀ t, .start t ∈ events → t < finishedCount events + limit.toNat := by
    intro t ht
    have := (ho.launched t ht).2
    omega
  have hrunning : ∀ t p, (t, p) ∈ s.running → .start t ∈ events ∧ .finish t ∉ events :=
    fun t p hp => (h.running t).mp ⟨p, hp⟩
  let expected := (s.running.map Prod.fst).map Event.finish
  let finished := events.filter isFinish
  have hdistinct : (expected ++ finished).Nodup := by
    refine (h.distinct.map fun _ _ => Event.finish.inj).append ?_ ?_
    · refine ho.once.sublist (List.monotone_filter_right _ fun e => ?_)
      cases e <;> simp [isFinish]
    · intro e he hfinished
      obtain ⟨t, ht, rfl⟩ := List.mem_map.mp he
      obtain ⟨⟨t, p⟩, hp, rfl⟩ := List.mem_map.mp ht
      exact (hrunning t p hp).2 (List.mem_of_mem_filter hfinished)
  have hsubset : expected ++ finished ⊆
      (List.range (finishedCount events + limit.toNat)).map Event.finish := by
    intro e he
    rcases List.mem_append.mp he with he | he
    · obtain ⟨t, ht, rfl⟩ := List.mem_map.mp he
      obtain ⟨⟨t, p⟩, hp, rfl⟩ := List.mem_map.mp ht
      exact List.mem_map_of_mem (List.mem_range.mpr (hbelow t (hrunning t p hp).1))
    · obtain ⟨he, hfinish⟩ := List.mem_filter.mp he
      cases e with
      | finish t =>
        exact List.mem_map_of_mem (List.mem_range.mpr (hbelow t (ho.started t he)))
      | start t => contradiction
      | cancel => contradiction
  have hlength := (List.subperm_of_subset hdistinct hsubset).length_le
  have hfinished : finished.length = finishedCount events := by
    rw [finishedCount_eq, List.countP_eq_length_filter]
  simp only [List.length_append, expected, List.length_map, hfinished, List.length_range]
    at hlength
  omega

end

section

variable {α : Type u} {β : Type v} {ε : Type w} {work : α → β × Option ε} {blank : β}
  {items : List α} {events : List Event} {s : State β ε} {limit : Int}

theorem Reached.positions (h : Reached work blank items events s) :
    List.Forall₂ (fun item result => result = (work item).1 ∨ result = blank) items s.results := by
  refine List.forall₂_iff_get.mpr ⟨h.size.symm, fun t ht ht' => ?_⟩
  have hcell := h.cell t _ (List.getElem?_eq_getElem ht)
  rw [List.getElem?_eq_getElem ht', Option.some_inj, Option.some_inj] at hcell
  exact hcell.symm

theorem Reached.no_problem (h : Reached work blank items events s)
    (complete : isComplete items.length events = true) (hnone : s.failure = none) :
    ∀ item ∈ items, (work item).2 = none := by
  intro item hitem
  obtain ⟨t, hlt, rfl⟩ := List.mem_iff_getElem.mp hitem
  exact (h.done hnone t _ (isComplete_iff.mp complete t hlt) (List.getElem?_eq_getElem hlt)).2

theorem Reached.results_eq (h : Reached work blank items events s)
    (complete : isComplete items.length events = true) (hnone : s.failure = none) :
    s.results = items.map (fun item => (work item).1) := by
  refine List.ext_getElem (by simp [h.size]) fun t ht ht' => ?_
  have hlt : t < items.length := h.size ▸ ht
  have hdone := h.done hnone t _ (isComplete_iff.mp complete t hlt) (List.getElem?_eq_getElem hlt)
  simpa [List.getElem?_eq_getElem ht] using hdone.1

/-- If no task fails, then all values are there, or a cancellation from outside came
before some task. -/
theorem mapBy_of_good (work : α → β × Option ε) (blank : β)
    (can : canHappenAll limit items.length [] events = true)
    (complete : isComplete items.length events = true)
    (good : ∀ item ∈ items, (work item).2 = none) :
    mapBy work blank items events = (items.map (fun item => (work item).1), none) ∨
      .cancel ∈ events ∧ (mapBy work blank items events).2 = some .cancelled := by
  have h : Reached work blank items events _ := reached_run can
  rw [mapBy]
  cases hfailure : (run work items (.initial blank items) events).failure with
  | none => exact .inl (Prod.ext (h.results_eq complete hfailure) rfl)
  | some f =>
    right
    cases f with
    | cancelled => exact ⟨h.outside hfailure, rfl⟩
    | failed reason =>
      obtain ⟨item, hitem, hreason⟩ := h.failed reason hfailure
      simp [good item hitem] at hreason

/-- If some task fails and nothing is cancelled from outside, then the failure is one
that some task has reported. -/
theorem mapBy_of_problem (can : canHappenAll limit items.length [] events = true)
    (complete : isComplete items.length events = true) (inside : .cancel ∉ events)
    (bad : ∃ item ∈ items, (work item).2 ≠ none) :
    ∃ item ∈ items, ∃ reason, (work item).2 = some reason ∧
      (mapBy work blank items events).2 = some (.failed reason) := by
  have h : Reached work blank items events _ := reached_run can
  rw [mapBy]
  cases hfailure : (run work items (.initial blank items) events).failure with
  | none =>
    obtain ⟨item, hitem, hproblem⟩ := bad
    exact absurd (h.no_problem complete hfailure item hitem) hproblem
  | some f =>
    cases f with
    | cancelled => exact absurd (h.outside hfailure) inside
    | failed reason =>
      obtain ⟨item, hitem, hreason⟩ := h.failed reason hfailure
      exact ⟨item, hitem, reason, hreason, rfl⟩

end

end ParallelMap

end Typographical
