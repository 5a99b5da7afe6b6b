/-!
# Mapping a list by concurrent tasks

One task is launched per item, in the order of the items and only as long as there
is room for it. A task that starts after cancellation does no work and reports the
cancellation; any other task stores its value and, if it failed, reports that
failure. The first report decides the failure of the whole map and cancels what has
not started yet. The map may also be cancelled from outside, at any time.

A run is given by the order of its events, so every interleaving is a list; which
lists are possible depends on how many tasks there is room for. `inOrder` is the
interleaving in which one task at a time runs. Memory models and fairness are not
represented: an event is one indivisible step.
-/

namespace Typographical

namespace ParallelMap

universe u v w

inductive Failure (ε : Type w) where
  | cancelled
  | failed (reason : ε)
  deriving DecidableEq

def Failure.message {ε : Type w} [ToString ε] : Failure ε → String
  | .cancelled => "context canceled"
  | .failed reason => toString reason

/-- What a started task will do when it finishes. -/
inductive Pending (β : Type v) (ε : Type w) where
  | skipped
  | computed (value : β) (problem : Option ε)

inductive Event where
  | start (task : Nat)
  | finish (task : Nat)
  | cancel
  deriving DecidableEq

structure State (β : Type v) (ε : Type w) where
  results : List β
  running : List (Nat × Pending β ε)
  failure : Option (Failure ε)
  cancelled : Bool

variable {α : Type u} {β : Type v} {ε : Type w}

/-- Every result is blank and nothing runs. -/
def State.initial (blank : β) (items : List α) : State β ε :=
  ⟨items.map (fun _ => blank), [], none, false⟩

/-- Record a report; only the first one counts, and any one cancels. -/
def State.report (s : State β ε) (f : Failure ε) : State β ε :=
  { s with failure := s.failure.or (some f), cancelled := true }

/-- The effect of one event. An event of a task that does not exist, or is not
running, has none. -/
def step (work : α → β × Option ε) (items : List α) (s : State β ε) : Event → State β ε
  | .start task =>
    match items[task]? with
    | none => s
    | some item =>
      let pending :=
        if s.cancelled then Pending.skipped
        else Pending.computed (work item).1 (work item).2
      { s with running := s.running ++ [(task, pending)] }
  | .finish task =>
    let rest := { s with running := s.running.filter (fun p => p.1 != task) }
    match (s.running.find? (fun p => p.1 == task)).map Prod.snd with
    | none => s
    | some .skipped => rest.report .cancelled
    | some (.computed value problem) =>
      let stored := { rest with results := rest.results.set task value }
      match problem with
      | none => stored
      | some reason => stored.report (.failed reason)
  | .cancel => { s with cancelled := true }

def run (work : α → β × Option ε) (items : List α) (s : State β ε)
    (events : List Event) : State β ε :=
  events.foldl (step work items) s

/-- What a map gives when its events happen in a given order. -/
def mapBy (work : α → β × Option ε) (blank : β) (items : List α) (events : List Event) :
    List β × Option (Failure ε) :=
  let final := run work items (.initial blank items) events
  (final.results, final.failure)

def finishedCount (events : List Event) : Nat :=
  events.countP (fun | .finish _ => true | _ => false)

/-- Whether an event can happen next. A task starts once, when it has been launched:
at most `limit` tasks are launched that have not finished, unless the limit is not
positive, and those before it are launched first. It finishes once, after that. -/
def canHappen (limit : Int) (count : Nat) (past : List Event) : Event → Bool
  | .start task =>
    task < count && !past.contains (.start task) &&
      (limit ≤ 0 || (task : Int) < finishedCount past + limit)
  | .finish task => past.contains (.start task) && !past.contains (.finish task)
  | .cancel => true

def canHappenAll (limit : Int) (count : Nat) : List Event → List Event → Bool
  | _, [] => true
  | past, e :: rest =>
    canHappen limit count past e && canHappenAll limit count (past ++ [e]) rest

def isComplete (count : Nat) (events : List Event) : Bool :=
  (List.range count).all (fun task => events.contains (.finish task))

def inOrder (count : Nat) : List Event :=
  (List.range count).flatMap (fun task => [.start task, .finish task])

/-- Map a list by tasks that run one after the other, where the map may have been
cancelled before. -/
def sequentially (work : α → β × Option ε) (blank : β) (items : List α)
    (cancelled : Bool) : List β × Option (Failure ε) :=
  mapBy work blank items ((if cancelled then [.cancel] else []) ++ inOrder items.length)

end ParallelMap

end Typographical
