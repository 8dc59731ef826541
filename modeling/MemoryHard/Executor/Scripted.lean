import MemoryHard.Executor

/-!
# MemoryHard.Executor.Scripted — an executor with an incident

To see how a computation takes a failing executor, one may be scripted: it runs jobs in order,
and at one of its calls the incident happens.

* `Incident` — what happens;
* `Executor.scripted` — the executor.
-/

namespace MemoryHard

/-- What happens at a call of a scripted executor. -/
inductive Incident where
  /-- The call fails without running a job. -/
  | fails
  /-- The last result is lost. -/
  | losesLast
  /-- The computation is called off after the jobs have run. -/
  | cancels
deriving DecidableEq

/-- Runs jobs in order, with an incident after `call` other calls. -/
def Executor.scripted (incident : Incident) (call : Nat) : Executor where
  name := "faulty"
  run calls jobs task :=
    let results := runInOrder jobs task
    if calls ≠ call then ⟨results, false⟩
    else
      match incident with
      | .fails => ⟨.error (.thread (.stated "injected failure")), false⟩
      | .losesLast => ⟨results.map List.dropLast, false⟩
      | .cancels => ⟨results, true⟩

end MemoryHard
