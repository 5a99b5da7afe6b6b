import Typographical.CommandLine.Report
import Typographical.Proofs.Schedules
import Typographical.Proofs.Tables

/-!
# Reports on checked scripts

Every table can be printed, so every script is reported on, whatever its outcome. The
reports stand in the order of the arguments, since each task writes only its own
place, and no order of the tasks changes what is printed or the verdict.
-/

namespace Typographical

namespace CommandLine

open ParallelMap (Event canHappenAll isComplete mapBy)
open Terminal (Table Escape)

universe u v w

/-- A row of three cells is the last one of the table then. -/
theorem exists_addRow {t : Table} (h : t.Sized 3) (first second third : String) :
    ∃ t', t.addRow (contents [first, second, third]) = .ok (t.height, t') ∧ t'.Sized 3 ∧
      ∃ cells, t'.rows[t.height]? = some cells ∧ cells.length = 3 := by
  have hlength : (contents [first, second, third]).length = 3 := rfl
  obtain ⟨t', hadd, hsized, -, hrows, -⟩ := h.exists_addRow hlength
  refine ⟨t', hadd, hsized, (contents [first, second, third]).map ({ content := · }), ?_, rfl⟩
  rw [hrows, Table.height, List.getElem?_concat_length]

theorem exists_addStep {t : Table} (options : ReportOptions) (h : t.Sized 3) (index : Nat)
    (s : Step) : ∃ t', addStep options t index s = .ok t' ∧ t'.Sized 3 := by
  obtain ⟨t', hadd, hsized, cells, hrow, hlength⟩ := exists_addRow h (toString index)
    (repeated (2 * s.depth) ' ' ++ options.style.render s.formula.text) s.justification.annotation
  obtain ⟨t'', hset, hsized'⟩ :=
    hsized.exists_setEscape hrow (by omega : 1 < cells.length) (.foreground .plain Escape.cyan)
  simp only [addStep, hadd]
  by_cases hdepth : s.depth = 0
  · exact ⟨t', by rw [hdepth]; rfl, hsized⟩
  · exact ⟨t'', by rw [← hset]; exact if_neg hdepth, hsized'⟩

theorem exists_addFailure {t : Table} (h : t.Sized 3) (failure : Option Script.Failure) :
    ∃ t', addFailure t failure = .ok t' := by
  cases failure with
  | none => exact ⟨t, rfl⟩
  | some e =>
    cases e with
    | step index rule cause =>
      obtain ⟨t', hadd, hsized, cells, hrow, -⟩ := exists_addRow h (toString index) "" rule
      obtain ⟨t'', hset, -⟩ := hsized.exists_setRowEscape hrow (.foreground .plain Escape.red)
      refine ⟨t'', ?_⟩
      rw [addFailure, hadd]
      exact hset
    | badGoal e => exact ⟨t, rfl⟩
    | empty e => exact ⟨t, rfl⟩
    | unproved proved expected => exact ⟨t, rfl⟩

/-- Every row has three cells, and every setting is of one of the three columns. -/
theorem exists_proofTable (options : ReportOptions) (d : Deduction)
    (failure : Option Script.Failure) : ∃ t, proofTable options d failure = .ok t := by
  obtain ⟨t, hempty, hsized⟩ : ∃ t, emptyProof options = .ok t ∧ t.Sized 3 := ⟨_, rfl, rfl, rfl⟩
  obtain ⟨t', hsteps, hsized'⟩ := exists_foldlM_eq_ok
    (fun (t : Table) h (s : Step × Nat) => exists_addStep options h s.2 s.1) d.steps.zipIdx hsized
  obtain ⟨t'', hfailure⟩ := exists_addFailure hsized' failure
  exact ⟨t'', bind_eq_ok_iff.mpr ⟨t, hempty, bind_eq_ok_iff.mpr ⟨t', hsteps, hfailure⟩⟩⟩

theorem exists_proofReport (options : ReportOptions) (d : Deduction)
    (failure : Option Script.Failure) : ∃ report, proofReport options d failure = .ok report := by
  obtain ⟨t, htable⟩ := exists_proofTable options d failure
  obtain ⟨printed, hprint, -⟩ := t.exists_print
  have htext : tableText t = .ok (Utf8.text printed) := by rw [tableText, hprint]; rfl
  exact ⟨_, bind_eq_ok_iff.mpr ⟨t, htable, bind_eq_ok_iff.mpr ⟨_, htext, rfl⟩⟩⟩

theorem exists_scriptReport (options : ReportOptions) (file : String)
    (r : Except LoadError Checked) : ∃ report, scriptReport options file r = .ok report := by
  cases r with
  | error e => exact ⟨_, rfl⟩
  | ok c =>
    obtain ⟨proof, hproof⟩ := exists_proofReport options c.deduction c.failure
    obtain ⟨clean, hclean⟩ := exists_proofReport options c.deduction none
    rw [scriptReport, hproof, hclean]
    split
    · exact ⟨_, rfl⟩
    · split
      · exact ⟨_, rfl⟩
      · cases options.quiet <;> exact ⟨_, rfl⟩

theorem isAsIntended_iff {r : Except LoadError Checked} :
    isAsIntended r = true ↔ ∃ c, r = .ok c ∧ c.objection = none := by
  cases r <;> simp [isAsIntended]

/-- The reports follow what was printed before, and the verdict goes on from the one
before. -/
theorem exists_reports (options : ReportOptions)
    (checked : List (String × Except LoadError Checked)) (printed : String) (ok : Bool) :
    ∃ reports, List.Forall₂ (fun c report => scriptReport options c.1 c.2 = .ok report)
        checked reports ∧
      checked.foldlM (fun (printed, ok) (file, r) => do
          return (printed ++ (← scriptReport options file r), isAsIntended r && ok)) (printed, ok) =
        Except.ok (printed ++ String.join reports,
          checked.all (fun c => isAsIntended c.2) && ok) := by
  induction checked generalizing printed ok with
  | nil => exact ⟨[], .nil, by simp [pure, Except.pure]⟩
  | cons c checked ih =>
    obtain ⟨file, r⟩ := c
    obtain ⟨report, hreport⟩ := exists_scriptReport options file r
    obtain ⟨reports, hreports, hfold⟩ := ih (printed ++ report) (isAsIntended r && ok)
    refine ⟨report :: reports, .cons hreport hreports, ?_⟩
    simp only [List.foldlM_cons, hreport]
    refine hfold.trans ?_
    rw [String.join_cons, String.append_assoc, List.all_cons, Bool.and_left_comm, Bool.and_assoc]

/-- Every script is reported on, in the order given. -/
theorem exists_reportAll (options : ReportOptions)
    (checked : List (String × Except LoadError Checked)) :
    ∃ reports, List.Forall₂ (fun c report => scriptReport options c.1 c.2 = .ok report)
        checked reports ∧
      reportAll options checked =
        .ok (String.join reports, checked.all (fun c => isAsIntended c.2)) := by
  obtain ⟨reports, hreports, hfold⟩ := exists_reports options checked "" true
  rw [String.empty_append, Bool.and_true] at hfold
  exact ⟨reports, hreports, hfold⟩

section

variable {check : String → Except LoadError Checked} {files : List String} {limit : Int}
  {events : List Event}

/-- All places are filled, each with the outcome of its script. -/
theorem checkFiles_eq (can : canHappenAll limit files.length [] events = true)
    (complete : isComplete files.length events = true) (inside : .cancel ∉ events) :
    checkFiles check files events = files.map (fun file => some (file, check file)) := by
  let work (file : String) : Option (String × Except LoadError Checked) × Option Empty :=
    (some (file, check file), none)
  rcases ParallelMap.mapBy_of_good work none can complete (fun _ _ => rfl) with h | ⟨h, -⟩
  · exact congrArg Prod.fst h
  · exact absurd h inside

/-- What is printed about scripts does not depend on the order in which they are checked. -/
theorem exists_checkScripts (options : ReportOptions)
    (can : canHappenAll limit files.length [] events = true)
    (complete : isComplete files.length events = true) (inside : .cancel ∉ events) :
    ∃ reports, List.Forall₂
        (fun file report => scriptReport options file (check file) = .ok report)
        files reports ∧
      checkScripts check options files events = .ok
        (if files.any (fun file => isAborted (check file)) then none
        else some (String.join reports,
          files.all (fun file => isAsIntended (check file)))) := by
  let checked := files.map (fun file => (file, check file))
  obtain ⟨reports, hreports, hall⟩ := exists_reportAll options checked
  refine ⟨reports, List.forall₂_map_left_iff.mp hreports, ?_⟩
  have hchecked : (checkFiles check files events).filterMap id = checked := by
    rw [checkFiles_eq can complete inside, List.filterMap_map]
    exact congrFun List.filterMap_eq_map' files
  have hany : checked.any (fun c => isAborted c.2) =
      files.any (fun file => isAborted (check file)) := List.any_map
  have hverdict : checked.all (fun c => isAsIntended c.2) =
      files.all (fun file => isAsIntended (check file)) := List.all_map
  rw [checkScripts, hchecked, hall, hany, hverdict]
  cases files.any (fun file => isAborted (check file)) <;> rfl

end

/-- The outcome is the same for every order in which the tasks start and finish.

A map of which nothing is cancelled from outside gives the values in the order of the
items, if no task fails, and otherwise a failure that one of them reported; there is a
value or a blank at every position. A cancellation from outside may be reported in
place of the values.

Scripts are reported on in the order of the arguments, unless reading one of them
broke off, and the verdict says whether all of them turned out as they should. -/
theorem outcome_independent_of_schedule :
    (∀ {α : Type u} {β : Type v} {ε : Type w} (work : α → β × Option ε) (blank : β)
        (items : List α) (limit : Int) (events : List Event),
      canHappenAll limit items.length [] events = true →
      (∃ rest, .cancel ∉ rest ∧ canHappenAll limit items.length [] (events ++ rest) = true ∧
        isComplete items.length (events ++ rest) = true) ∧
      (isComplete items.length events = true →
        List.Forall₂ (fun item result => result = (work item).1 ∨ result = blank) items
          (mapBy work blank items events).1 ∧
        ((∀ item ∈ items, (work item).2 = none) →
          mapBy work blank items events = (items.map (fun item => (work item).1), none) ∨
            .cancel ∈ events ∧ (mapBy work blank items events).2 = some .cancelled) ∧
        ((∃ item ∈ items, (work item).2 ≠ none) → .cancel ∉ events →
          ∃ item ∈ items, ∃ reason, (work item).2 = some reason ∧
            (mapBy work blank items events).2 = some (.failed reason)))) ∧
    (∀ (check : String → Except LoadError Checked) (options : ReportOptions) (files : List String)
        (limit : Int) (events : List Event),
      canHappenAll limit files.length [] events = true →
      isComplete files.length events = true → .cancel ∉ events →
      ∃ outcome, checkScripts check options files events = .ok outcome ∧
        (outcome = none ↔ ∃ file ∈ files, isAborted (check file) = true) ∧
        ∀ printed ok, outcome = some (printed, ok) →
          (∃ reports, List.Forall₂
              (fun file report => scriptReport options file (check file) = .ok report)
              files reports ∧ printed = String.join reports) ∧
          (ok = true ↔ ∀ file ∈ files, ∃ c, check file = .ok c ∧ c.objection = none)) := by
  constructor
  · intro α β ε work blank items limit events can
    refine ⟨ParallelMap.exists_completion can, fun complete => ⟨?_, ?_, ?_⟩⟩
    · exact (ParallelMap.reached_run can).positions
    · exact ParallelMap.mapBy_of_good work blank can complete
    · intro bad inside
      exact ParallelMap.mapBy_of_problem can complete inside bad
  · intro check options files limit events can complete inside
    obtain ⟨reports, hreports, hscripts⟩ := exists_checkScripts options can complete inside
    refine ⟨_, hscripts, by simp, fun printed ok houtcome => ?_⟩
    obtain ⟨-, hprinted⟩ := Option.ite_none_left_eq_some.mp houtcome
    obtain ⟨rfl, rfl⟩ := Prod.mk.inj (Option.some.inj hprinted)
    exact ⟨⟨reports, hreports, rfl⟩, by simp [isAsIntended_iff]⟩

/-- The task in the middle fails before the others finish, and the last one starts after
that and is passed over. -/
theorem outcome_independent_of_schedule_passed_over :
    let square (x : Int) : Int × Option String :=
      if x % 2 = 1 then (-x, some "odd") else (x * x, none)
    let events : List Event :=
      [.start 1, .start 0, .finish 1, .start 2, .finish 2, .finish 0]
    let read (file : String) : Except String String := .error (file ++ " is missing")
    let files := ["c", "a", "b"]
    canHappenAll 2 3 [] events = true ∧ isComplete 3 events = true ∧ .cancel ∉ events ∧
      mapBy square 0 [2, 5, 6] events = ([4, -5, 0], some (.failed "odd")) ∧
      (∃ item ∈ [2, 5, 6], ∃ reason, (square item).2 = some reason ∧
        (mapBy square 0 [2, 5, 6] events).2 = some (.failed reason)) ∧
      (mapBy square 0 [2, 4, 6] events = ([4, 16, 36], none) ∨
        .cancel ∈ events ∧ (mapBy square 0 [2, 4, 6] events).2 = some .cancelled) ∧
      ∃ outcome,
        checkScripts (checkFile read) ⟨.canonical, 120, false, true⟩ files events = .ok outcome ∧
        ∀ printed ok, outcome = some (printed, ok) →
          (ok = true ↔ ∀ file ∈ files, ∃ c, checkFile read file = .ok c ∧ c.objection = none) := by
  intro square events read files
  have can : canHappenAll 2 3 [] events = true := by decide
  have complete : isComplete 3 events = true := by decide
  have inside : .cancel ∉ events := by decide
  have maps := outcome_independent_of_schedule.1 square 0
  have scripts := outcome_independent_of_schedule.{0, 0, 0}.2
    (checkFile read) ⟨.canonical, 120, false, true⟩ files
  refine ⟨can, complete, inside, by decide, ?_, ?_, ?_⟩
  · exact ((maps [2, 5, 6] 2 events can).2 complete).2.2 (by decide) inside
  · exact ((maps [2, 4, 6] 2 events can).2 complete).2.1 (by decide)
  · obtain ⟨outcome, houtcome, -, hverdict⟩ := scripts 2 events can complete inside
    exact ⟨outcome, houtcome, fun printed ok h => (hverdict printed ok h).2⟩

/-- No task fails, but the map was cancelled from outside before the only one started. -/
theorem cancelled_before_start :
    let square (x : Int) : Int × Option Empty := (x * x, none)
    let events : List Event := [.cancel, .start 0, .finish 0]
    canHappenAll 1 1 [] events = true ∧ isComplete 1 events = true ∧
      (∀ item ∈ [3], (square item).2 = none) ∧
      mapBy square 0 [3] events = ([0], some .cancelled) ∧
      mapBy square 0 [3] events ≠ ([3].map (fun item => (square item).1), none) := by
  decide

end CommandLine

end Typographical
