import Mathlib.Algebra.GroupWithZero.Nat
import Mathlib.Tactic.SplitIfs
import MemoryHard.Executor.Conduct
import MemoryHard.Proofs.Commitment.Levels

/-!
# MemoryHard.Proofs.Executor.Batches — batches lose no job

The batches of several workers are the jobs cut into pieces: put together again, they are all jobs
in order.  So several workers hand back what a single one does, as long as no job stops.

* `flatten_batches` — all jobs, in order;
* `gather_eq_ok` — the results of all workers, put together;
* `Executor.isReliable_serial`, `Executor.isReliable_threaded` — one worker and several hand back
  the results of all jobs in order.
-/

namespace MemoryHard

theorem flatten_cut {α : Type} (sizes : List Nat) (xs : List α) :
    (cut sizes xs).flatten = xs.take sizes.sum := by
  induction sizes generalizing xs with
  | nil => rw [cut, List.flatten_nil, List.sum_nil, List.take_zero]
  | cons n sizes ih => rw [cut, List.flatten_cons, ih, List.sum_cons, List.take_add]

theorem sum_batchSizes {workers : Nat} (h : 0 < workers) (jobs : Nat) :
    (batchSizes workers jobs).sum = jobs := by
  -- the first `m` workers have their share and one job more each as long as some are left over
  have hfirst : ∀ m, ((List.range m).map fun w =>
      jobs / workers + if w < jobs % workers then 1 else 0).sum =
        m * (jobs / workers) + min m (jobs % workers) := by
    intro m
    induction m with
    | zero => simp
    | succ m ih =>
      rw [List.range_succ, List.map_append, List.sum_append, ih, List.map_singleton,
        List.sum_singleton, Nat.succ_mul]
      split_ifs <;> omega
  have hlast := Nat.mod_lt jobs h
  have hall := Nat.div_add_mod jobs workers
  rw [batchSizes, hfirst, Nat.min_eq_right (Nat.le_of_lt hlast)]
  exact hall

/-- The batches are the jobs, none of them lost and in order. -/
theorem flatten_batches {α : Type} {workers : Nat} (h : 0 < workers) (jobs : List α) :
    (batches workers jobs).flatten = jobs := by
  rw [batches, flatten_cut, sum_batchSizes h, List.take_length]

/-! ## Jobs none of which stops -/

section
variable {task : SegmentTask} {f : SegmentJob → List Block} {jobs : List SegmentJob}

theorem runInOrder_eq_ok (h : ∀ job ∈ jobs, task job = some (f job)) :
    runInOrder jobs task = .ok (jobs.map f) := by
  rw [runInOrder, mapM_eq_some_map h]

theorem gather_eq_ok (worker : Nat) {batches : List (List SegmentJob)}
    (h : ∀ job ∈ batches.flatten, task job = some (f job)) :
    gather worker (batches.map (·.mapM task)) = .ok (batches.flatten.map f) := by
  induction batches generalizing worker with
  | nil => rfl
  | cons batch batches ih =>
    rw [List.flatten_cons, List.forall_mem_append] at h
    rw [List.map_cons, mapM_eq_some_map h.1, gather, ih (worker + 1) h.2, List.flatten_cons,
      List.map_append]
    rfl

theorem runInBatches_eq_gather {threads : Nat} (h : ¬(threads = 1 ∨ jobs.length ≤ 1)) :
    runInBatches threads jobs task =
      gather 0 ((batches (min threads jobs.length) jobs).map (·.mapM task)) :=
  if_neg h

/-- If no job stops, several workers do what a single one does. -/
theorem runInBatches_eq_ok {threads : Nat} (hpos : 0 < threads)
    (h : ∀ job ∈ jobs, task job = some (f job)) :
    runInBatches threads jobs task = .ok (jobs.map f) := by
  by_cases hone : threads = 1 ∨ jobs.length ≤ 1
  · rw [runInBatches, if_pos hone, runInOrder_eq_ok h]
  · have hworkers : 0 < min threads jobs.length := by omega
    rw [runInBatches_eq_gather hone,
      gather_eq_ok 0 (by rwa [flatten_batches hworkers]), flatten_batches hworkers]

end

/-! ## Executors that do all that is asked -/

namespace Executor

theorem isReliable_serial : serial.IsReliable where
  returnsInOrder _ _ _ := runInOrder_eq_ok fun _ _ => rfl
  isQuiet _ _ _ := rfl

theorem workerCount_pos (wish : Nat) : 0 < workerCount wish :=
  Nat.lt_of_lt_of_le Nat.one_pos (Nat.le_max_right wish 1)

theorem isReliable_threaded (wish : Nat) : (threaded wish).IsReliable where
  returnsInOrder _ _ _ := runInBatches_eq_ok (workerCount_pos wish) fun _ _ => rfl
  isQuiet _ _ _ := rfl

end Executor

end MemoryHard
