import Mathlib.Logic.Function.Iterate
import MemoryHard.Executor.Crew
import MemoryHard.Proofs.Executor.Batches

/-!
# MemoryHard.Proofs.Executor.Workers — several workers do what a single one does

Every worker has a share of the jobs, and the shares are as even as they can be.  A worker does what
it has to do, whenever its turns come.  So the results of all workers, collected in order, are the
results of all jobs in order.  If a job stops, the first one in order that does is to blame.

* `length_of_mem_batches`, `length_batches` — how large the batches are, and how many;
* `exists_of_mapM_eq_none`, `gather_of_stopped` — the first job that stops, and its worker;
* `Worker.prospect`, `Crew.outcome_run` — what a worker comes to, and what a crew comes to, under
  any schedule;
* `Executor.threaded_agrees` — all of it, for any jobs and any number of workers.
-/

namespace MemoryHard

/-! ## Even batches -/

theorem map_length_cut {α : Type} {sizes : List Nat} {xs : List α} (h : sizes.sum ≤ xs.length) :
    (cut sizes xs).map List.length = sizes := by
  induction sizes generalizing xs with
  | nil => rfl
  | cons n sizes ih =>
    rw [List.sum_cons] at h
    rw [cut, List.map_cons, List.length_take, Nat.min_eq_left (by omega),
      ih (by rw [List.length_drop]; omega)]

theorem map_length_batches {α : Type} {workers : Nat} (h : 0 < workers) (jobs : List α) :
    (batches workers jobs).map List.length = batchSizes workers jobs.length :=
  map_length_cut (Nat.le_of_eq (sum_batchSizes h _))

/-- There is a batch for each worker. -/
theorem length_batches {α : Type} {workers : Nat} (h : 0 < workers) (jobs : List α) :
    (batches workers jobs).length = workers := by
  have hlength := congrArg List.length (map_length_batches h jobs)
  rwa [List.length_map, batchSizes, List.length_map, List.length_range] at hlength

/-- A batch has its share of the jobs, and one job more where some are left over. -/
theorem length_of_mem_batches {α : Type} {workers : Nat} (h : 0 < workers) {jobs batch : List α}
    (hb : batch ∈ batches workers jobs) :
    jobs.length / workers ≤ batch.length ∧ batch.length ≤ jobs.length / workers + 1 := by
  have hsize := List.mem_map_of_mem (f := List.length) hb
  rw [map_length_batches h, batchSizes] at hsize
  obtain ⟨w, -, hw⟩ := List.mem_map.1 hsize
  split_ifs at hw <;> omega

/-! ## The first job that stops -/

section
variable {task : SegmentTask}

theorem eq_some_getD {jobs : List SegmentJob} (h : ∀ job ∈ jobs, (task job).isSome) :
    ∀ job ∈ jobs, task job = some ((task job).getD []) := fun job hjob =>
  (Option.getD_of_ne_none (Option.isSome_iff_ne_none.1 (h job hjob)) []).symm

theorem isSome_of_mapM_eq_some {jobs : List SegmentJob} {results : List (List Block)}
    (h : jobs.mapM task = some results) : ∀ job ∈ jobs, (task job).isSome := by
  induction jobs generalizing results with
  | nil => exact List.forall_mem_nil _
  | cons job jobs ih =>
    rw [List.mapM_cons] at h
    obtain ⟨result, hresult, h⟩ := Option.bind_eq_some_iff.1 h
    obtain ⟨rest, hrest, -⟩ := Option.bind_eq_some_iff.1 h
    exact List.forall_mem_cons.2 ⟨Option.isSome_of_eq_some hresult, ih hrest⟩

/-- If there are no results, some job is the first that stops. -/
theorem exists_of_mapM_eq_none {jobs : List SegmentJob} (h : jobs.mapM task = none) :
    ∃ before job after, jobs = before ++ job :: after ∧ (∀ j ∈ before, (task j).isSome) ∧
      task job = none := by
  induction jobs with
  | nil => cases h
  | cons job jobs ih =>
    cases hjob : task job with
    | none => exact ⟨[], job, jobs, rfl, List.forall_mem_nil _, hjob⟩
    | some result =>
      have hrest : jobs.mapM task = none := by
        rw [List.mapM_cons, hjob] at h
        cases hrest : jobs.mapM task with
        | none => rfl
        | some results =>
          rw [hrest] at h
          cases h
      obtain ⟨before, failed, after, rfl, hbefore, hfailed⟩ := ih hrest
      exact ⟨job :: before, failed, after, rfl,
        List.forall_mem_cons.2 ⟨Option.isSome_of_eq_some hjob, hbefore⟩, hfailed⟩

/-- In the order of the batches, the first job that stops is one of this worker. -/
def StopsFirst (task : SegmentTask) (batches : List (List SegmentJob)) (worker : Nat) : Prop :=
  ∃ done before job after rest, batches = done ++ (before ++ job :: after) :: rest ∧
    (∀ j ∈ done.flatten ++ before, (task j).isSome) ∧ task job = none ∧ worker = done.length

theorem StopsFirst.cons {batches : List (List SegmentJob)} {worker : Nat}
    (h : StopsFirst task batches worker) {batch : List SegmentJob}
    (hbatch : ∀ job ∈ batch, (task job).isSome) :
    StopsFirst task (batch :: batches) (worker + 1) := by
  obtain ⟨done, before, job, after, rest, rfl, hbefore, hjob, rfl⟩ := h
  refine ⟨batch :: done, before, job, after, rest, rfl, ?_, hjob, rfl⟩
  rw [List.flatten_cons, List.append_assoc]
  exact List.forall_mem_append.2 ⟨hbatch, hbefore⟩

/-- If a job stops, the worker of the first one that does is named. -/
theorem gather_of_stopped (first : Nat) {batches : List (List SegmentJob)}
    (h : ∃ job ∈ batches.flatten, task job = none) :
    ∃ worker, StopsFirst task batches worker ∧
      gather first (batches.map (·.mapM task)) =
        .error (.thread (.workerStopped (first + worker))) := by
  induction batches generalizing first with
  | nil =>
    obtain ⟨job, hjob, -⟩ := h
    cases hjob
  | cons batch batches ih =>
    rw [List.map_cons]
    cases hbatch : batch.mapM task with
    | none =>
      obtain ⟨before, job, after, rfl, hbefore, hjob⟩ := exists_of_mapM_eq_none hbatch
      exact ⟨0, ⟨[], before, job, after, batches, rfl, hbefore, hjob, rfl⟩, rfl⟩
    | some results =>
      have hsome := isSome_of_mapM_eq_some hbatch
      obtain ⟨job, hmem, hjob⟩ := h
      rw [List.flatten_cons, List.mem_append] at hmem
      -- this batch goes through, so the job that stops is in one of the others
      have hrest : job ∈ batches.flatten :=
        hmem.resolve_left fun hmem => by simpa [hjob] using hsome job hmem
      obtain ⟨worker, hstops, hgather⟩ := ih (first + 1) ⟨job, hrest, hjob⟩
      refine ⟨worker + 1, hstops.cons hsome, ?_⟩
      rw [gather, hgather, Nat.add_right_comm, ← Nat.add_assoc]
      rfl

/-! ## Turns in any order -/

namespace Worker

/-- What a worker comes to in the end. -/
def prospect (task : SegmentTask) : Worker → Option (List (List Block))
  | running results ahead => (ahead.mapM task).map (results ++ ·)
  | stopped => none

theorem prospect_start (batch : List SegmentJob) :
    (running [] batch).prospect task = batch.mapM task := by
  simp [prospect]

/-- Whatever a worker does at its turn, it comes to the same in the end. -/
theorem prospect_step (w : Worker) : (w.step task).prospect task = w.prospect task := by
  cases w with
  | stopped => rfl
  | running results ahead =>
    cases ahead with
    | nil => rfl
    | cons job ahead =>
      rw [prospect, step, List.mapM_cons]
      -- a job that is done goes over from those ahead to the results
      cases hjob : task job with
      | none => rfl
      | some result =>
        rw [prospect]
        cases ahead.mapM task with
        | none => rfl
        | some rest => simp

theorem prospect_iterate_step (turns : Nat) (w : Worker) :
    ((step task)^[turns] w).prospect task = w.prospect task := by
  induction turns generalizing w with
  | zero => rfl
  | succ turns ih => rw [Function.iterate_succ_apply, ih, prospect_step]

theorem results?_of_isDone {w : Worker} (h : w.isDone = true) :
    w.results? = w.prospect task := by
  cases w with
  | stopped => rfl
  | running results ahead =>
    rw [List.isEmpty_iff.1 h]
    simp [results?, prospect]

theorem isDone_stopped (turns : Nat) : ((step task)^[turns] stopped).isDone = true := by
  induction turns with
  | zero => rfl
  | succ turns ih => exact ih

/-- A worker is done after as many turns as it has jobs. -/
theorem isDone_iterate_step {ahead : List SegmentJob} {turns : Nat} (h : ahead.length ≤ turns)
    (results : List (List Block)) :
    ((step task)^[turns] (running results ahead)).isDone = true := by
  induction turns generalizing results ahead with
  | zero => rw [List.length_eq_zero_iff.1 (Nat.le_zero.1 h)]; rfl
  | succ turns ih =>
    rw [Function.iterate_succ_apply]
    cases ahead with
    | nil => exact ih (Nat.zero_le _) results
    | cons job ahead =>
      have hlength : ahead.length ≤ turns := Nat.le_of_succ_le_succ h
      rw [step]
      cases task job with
      | none => exact isDone_stopped turns
      | some result => exact ih hlength _

end Worker

namespace Crew

/-- Workers share nothing, so a worker is where its own turns have brought it. -/
theorem getElem?_run (crew : Crew) (schedule : List Nat) (number : Nat) :
    (crew.run task schedule).workers[number]? =
      crew.workers[number]?.map (Worker.step task)^[schedule.count number] := by
  unfold run
  induction schedule generalizing crew with
  | nil => simp
  | cons first schedule ih =>
    rw [List.foldl_cons, ih, turn, List.getElem?_modify, List.count_cons]
    by_cases h : first = number
    · rw [if_pos (beq_iff_eq.2 h), Function.iterate_succ]
      simp [h]
    · simp [h]

theorem getElem?_start (batches : List (List SegmentJob)) (number : Nat) :
    (start batches).workers[number]? = batches[number]?.map (.running []) :=
  List.getElem?_map

/-- A crew is done when every worker has had a turn for each of its jobs. -/
theorem isOver_run {batches : List (List SegmentJob)} {schedule : List Nat}
    (h : ∀ number batch, batches[number]? = some batch → batch.length ≤ schedule.count number) :
    ((start batches).run task schedule).isOver = true := by
  refine List.all_eq_true.2 fun w hw => ?_
  obtain ⟨number, hnumber⟩ := List.mem_iff_getElem?.1 hw
  rw [getElem?_run, getElem?_start, Option.map_map, Option.map_eq_some_iff] at hnumber
  obtain ⟨batch, hbatch, rfl⟩ := hnumber
  exact Worker.isDone_iterate_step (h number batch hbatch) []

/-- However the turns fall, the workers come to what their batches come to. -/
theorem outcome_run {batches : List (List SegmentJob)} {schedule : List Nat}
    (h : ((start batches).run task schedule).isOver = true) :
    ((start batches).run task schedule).outcome = gather 0 (batches.map (·.mapM task)) := by
  unfold outcome
  congr 1
  apply List.ext_getElem?
  intro number
  rw [List.getElem?_map, List.getElem?_map, getElem?_run, getElem?_start]
  cases hbatch : batches[number]? with
  | none => rfl
  | some batch =>
    have hworker : ((start batches).run task schedule).workers[number]? =
        some ((Worker.step task)^[schedule.count number] (.running [] batch)) := by
      rw [getElem?_run, getElem?_start, hbatch]
      rfl
    have hdone := List.all_eq_true.1 h _ (List.mem_of_getElem? hworker)
    simp only [Option.map_some]
    rw [Worker.results?_of_isDone hdone, Worker.prospect_iterate_step, Worker.prospect_start]

end Crew

end

/-! ## One worker or several -/

section
variable {task : SegmentTask} {threads : Nat} {jobs : List SegmentJob}

theorem runInOrder_of_stopped (h : ∃ job ∈ jobs, task job = none) :
    runInOrder jobs task = .error .stopped := by
  obtain ⟨job, hmem, hjob⟩ := h
  unfold runInOrder
  cases hall : jobs.mapM task with
  | none => rfl
  | some results =>
    have hsome := isSome_of_mapM_eq_some hall job hmem
    rw [hjob] at hsome
    cases hsome

/-- If a job stops, several workers name the one that has the first such job. -/
theorem runInBatches_of_stopped (hpos : 0 < threads) (h : ∃ job ∈ jobs, task job = none)
    (hmore : ¬(threads = 1 ∨ jobs.length = 1)) :
    ∃ worker, StopsFirst task (batches (min threads jobs.length) jobs) worker ∧
      runInBatches threads jobs task = .error (.thread (.workerStopped worker)) := by
  obtain ⟨job, hmem, hjob⟩ := h
  have hlength : 0 < jobs.length := List.length_pos_of_mem hmem
  have hworkers : 0 < min threads jobs.length := by omega
  have hflatten := flatten_batches hworkers jobs
  have hshares : ∃ job ∈ (batches (min threads jobs.length) jobs).flatten, task job = none :=
    ⟨job, by rwa [hflatten], hjob⟩
  obtain ⟨worker, hstops, hgather⟩ := gather_of_stopped 0 hshares
  refine ⟨worker, hstops, ?_⟩
  rw [runInBatches_eq_gather (by omega), hgather, Nat.zero_add]

end

/-! ## All of it -/

/-- For any jobs and any number of threads, and whatever jobs stop.  Every worker has a batch, the
batches are the jobs in order, and they are as even as they can be.  If no job stops, there are the
results of all jobs in order, as one worker has them.  If some job stops, it takes the caller along
where there is one thread or one job only; else the worker that has the first job that stops is
named.  The workers come to this however their turns fall, and they are done when each has had as
many turns as it has jobs. -/
theorem Executor.threaded_agrees (wish calls : Nat) (jobs : List SegmentJob) (task : SegmentTask) :
    let threads := workerCount wish
    let shares := batches (min threads jobs.length) jobs
    let reply := (threaded wish).run calls jobs task
    (jobs ≠ [] → shares.length = min threads jobs.length ∧ shares.flatten = jobs ∧
      (∀ share ∈ shares, share ≠ []) ∧
      ∀ share ∈ shares, ∀ other ∈ shares, share.length ≤ other.length + 1) ∧
    ((∀ job ∈ jobs, (task job).isSome) →
      reply = serial.run calls jobs task ∧
      reply.outcome = .ok (jobs.map fun job => (task job).getD [])) ∧
    ((∃ job ∈ jobs, task job = none) →
      if threads = 1 ∨ jobs.length = 1 then reply.outcome = .error .stopped
      else ∃ worker, StopsFirst task shares worker ∧
        reply.outcome = .error (.thread (.workerStopped worker))) ∧
    (threads ≠ 1 → 1 < jobs.length → ∀ schedule,
      let crew := (Crew.start shares).run task schedule
      ((∀ number share, shares[number]? = some share → share.length ≤ schedule.count number) →
        crew.isOver = true) ∧
      (crew.isOver = true → crew.outcome = reply.outcome)) := by
  intro threads shares reply
  have hpos : 0 < threads := workerCount_pos wish
  refine ⟨fun hjobs => ?_, fun hsome => ?_, fun hstopped => ?_, fun hthreads hjobs schedule => ?_⟩
  · have hlength : 0 < jobs.length := List.length_pos_iff.2 hjobs
    have hworkers : 0 < min threads jobs.length := by omega
    have hshare : 1 ≤ jobs.length / min threads jobs.length :=
      Nat.div_pos (Nat.min_le_right _ _) hworkers
    refine ⟨length_batches hworkers jobs, flatten_batches hworkers jobs, ?_, ?_⟩
    · rintro share hmem rfl
      exact absurd (Nat.le_trans hshare (length_of_mem_batches hworkers hmem).1) (by decide)
    · intro share hmem other hother
      exact Nat.le_trans (length_of_mem_batches hworkers hmem).2
        (Nat.succ_le_succ (length_of_mem_batches hworkers hother).1)
  · have hreply : reply.outcome = .ok (jobs.map fun job => (task job).getD []) :=
      runInBatches_eq_ok hpos (eq_some_getD hsome)
    refine ⟨?_, hreply⟩
    show (⟨runInBatches threads jobs task, false⟩ : Reply) = ⟨runInOrder jobs task, false⟩
    rw [runInBatches_eq_ok hpos (eq_some_getD hsome), runInOrder_eq_ok (eq_some_getD hsome)]
  · split_ifs with hone
    · -- there is no worker besides the caller
      show runInBatches threads jobs task = .error .stopped
      rw [runInBatches, if_pos (by omega), runInOrder_of_stopped hstopped]
    · exact runInBatches_of_stopped hpos hstopped hone
  · have hmore : ¬(threads = 1 ∨ jobs.length ≤ 1) := by omega
    exact ⟨Crew.isOver_run,
      fun hover => (Crew.outcome_run hover).trans (runInBatches_eq_gather hmore).symm⟩

/-- Five jobs for three threads, of which the last two stop: the second worker has jobs 2 and 3, and
the third has job 4. -/
theorem Executor.threaded_agrees_five :
    let jobs : List SegmentJob := (List.range 5).map fun lane => ⟨0, 1, lane⟩
    let task : SegmentTask := fun job => if job.lane < 3 then some [.zero] else none
    let crew := (Crew.start (batches 3 jobs)).run task [2, 0, 1, 1, 0]
    (∃ job ∈ jobs, task job = none) ∧ ((threaded 3).run 0 jobs task).outcome =
        .error (.thread (.workerStopped 1)) ∧
      crew.isOver = true ∧ crew.outcome = .error (.thread (.workerStopped 1)) := by
  intro jobs task crew
  have hstopped : ∃ job ∈ jobs, task job = none := ⟨⟨0, 1, 3⟩, by decide, rfl⟩
  obtain ⟨-, -, hnamed, hcrew⟩ := threaded_agrees 3 0 jobs task
  obtain ⟨worker, -, houtcome⟩ := hnamed hstopped
  have hsecond : ((threaded 3).run 0 jobs task).outcome =
      .error (.thread (.workerStopped 1)) := by cbv
  cases hsecond.symm.trans houtcome
  have hover : crew.isOver = true := by decide
  obtain ⟨-, hsame⟩ := hcrew (by decide) (by decide) [2, 0, 1, 1, 0]
  exact ⟨hstopped, houtcome, hover, (hsame hover).trans houtcome⟩

end MemoryHard
