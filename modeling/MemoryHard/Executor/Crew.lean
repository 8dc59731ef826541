import MemoryHard.Executor

/-!
# MemoryHard.Executor.Crew — workers side by side

Workers that run their batches side by side share nothing but the jobs, and take turns in any order.
At each turn a worker runs the next job of its batch.  A job that stops without a result takes its
worker along, and nobody else.  When all are done, the results are collected worker by worker.

* `Worker` — a worker with its batch, with `Worker.step` for its turn;
* `Crew` — some workers, with `Crew.turn` and `Crew.run` for a schedule of turns;
* `Crew.outcome` — what is collected.
-/

namespace MemoryHard

/-- A worker with a batch of jobs. -/
inductive Worker where
  /-- It has some results, and some jobs to go. -/
  | running (results : List (List Block)) (ahead : List SegmentJob)
  /-- One of its jobs has stopped without a result. -/
  | stopped
deriving DecidableEq

namespace Worker

/-- What a worker does at its turn. -/
def step (task : SegmentTask) : Worker → Worker
  | running results (job :: ahead) =>
    match task job with
    | some result => running (results ++ [result]) ahead
    | none => stopped
  | running results [] => running results []
  | stopped => stopped

/-- Whether there is nothing left to do. -/
def isDone : Worker → Bool
  | running _ ahead => ahead.isEmpty
  | stopped => true

/-- The results so far, unless a job has stopped. -/
def results? : Worker → Option (List (List Block))
  | running results _ => some results
  | stopped => none

end Worker

/-- Some workers, by number. -/
structure Crew where
  workers : List Worker

namespace Crew

/-- A crew before its first turn, with a worker for each batch. -/
def start (batches : List (List SegmentJob)) : Crew := ⟨batches.map (.running [])⟩

/-- The turn of a worker. -/
def turn (task : SegmentTask) (crew : Crew) (number : Nat) : Crew :=
  ⟨crew.workers.modify number (Worker.step task)⟩

/-- The turns of a schedule in order. -/
def run (task : SegmentTask) (crew : Crew) (schedule : List Nat) : Crew :=
  schedule.foldl (turn task) crew

/-- Whether all workers are done. -/
def isOver (crew : Crew) : Bool := crew.workers.all Worker.isDone

/-- The results of all workers in order, or the first worker that has stopped. -/
def outcome (crew : Crew) : Except Failure (List (List Block)) :=
  gather 0 (crew.workers.map Worker.results?)

end Crew

end MemoryHard
