import MemoryHard.Memory.Segment

/-!
# MemoryHard.Executor — who computes the segments of a slice

The segments of a slice do not depend on each other, so an executor may compute them side by
side.  It hands back one result per job, in the order of the jobs.  A job may stop without a
result.

* `Executor.serial` — one job after the other;
* `Executor.threaded` — batches of jobs for several workers;
* `batches` — the jobs in consecutive runs whose lengths differ by one at most.
-/

namespace MemoryHard

/-- What computes the segment of a job; `none` if the job stops without a result. -/
abbrev SegmentTask := SegmentJob → Option (List Block)

/-- What an executor makes of the jobs of a slice. -/
structure Reply where
  outcome : Except Failure (List (List Block))
  /-- Whether the computation was called off meanwhile. -/
  cancels : Bool := false

/-- Who computes the segments of a slice. -/
structure Executor where
  name : String
  /-- The reply to some jobs, after `calls` earlier ones. -/
  run : (calls : Nat) → List SegmentJob → SegmentTask → Reply

/-- The jobs one after the other.  One that stops takes the caller along. -/
def runInOrder (jobs : List SegmentJob) (task : SegmentTask) : Except Failure (List (List Block)) :=
  match jobs.mapM task with
  | some results => .ok results
  | none => .error .stopped

/-- How many of `jobs` jobs each of the workers gets: the first ones take what is left over. -/
def batchSizes (workers jobs : Nat) : List Nat :=
  (List.range workers).map fun w => jobs / workers + if w < jobs % workers then 1 else 0

/-- A list in consecutive runs of the given lengths. -/
def cut {α : Type} : List Nat → List α → List (List α)
  | [], _ => []
  | n :: sizes, xs => xs.take n :: cut sizes (xs.drop n)

/-- The jobs in consecutive runs, one for each worker. -/
def batches {α : Type} (workers : Nat) (jobs : List α) : List (List α) :=
  cut (batchSizes workers jobs.length) jobs

/-- The results of all workers from number `worker` on, in order; the first worker without
results is at fault. -/
def gather (worker : Nat) : List (Option (List (List Block))) → Except Failure (List (List Block))
  | [] => .ok []
  | none :: _ => .error (.thread (.workerStopped worker))
  | some results :: rest => (gather (worker + 1) rest).map (results ++ ·)

/-- The jobs in batches for at most `threads` workers. -/
def runInBatches (threads : Nat) (jobs : List SegmentJob) (task : SegmentTask) :
    Except Failure (List (List Block)) :=
  if threads = 1 ∨ jobs.length ≤ 1 then runInOrder jobs task
  else gather 0 ((batches (min threads jobs.length) jobs).map (·.mapM task))

namespace Executor

/-- One job after the other. -/
def serial : Executor where
  name := "serial"
  run _ jobs task := ⟨runInOrder jobs task, false⟩

/-- The number of workers for a wish: at least one. -/
def workerCount (wish : Nat) : Nat := max wish 1

/-- Batches of jobs for as many workers as wished, at least one. -/
def threaded (wish : Nat) : Executor where
  name := "threaded"
  run _ jobs task := ⟨runInBatches (workerCount wish) jobs task, false⟩

end Executor

end MemoryHard
