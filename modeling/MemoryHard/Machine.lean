/-!
# MemoryHard.Machine — what a machine refuses

Room and workers are asked of a machine, and it may refuse them at any call, whatever it granted
before.

* `WorkerRefusal`, `Refusals` — what is refused to a call;
* `Machine` — what is refused to each call; `Machine.IsGenerous` — nothing ever is.
-/

namespace MemoryHard

/-- A worker that cannot be started.  Those with smaller numbers are at work by then. -/
structure WorkerRefusal where
  number : Nat
  /-- Why it cannot. -/
  reason : String

/-- What is refused to a call. -/
structure Refusals where
  /-- Room for the blocks of a memory. -/
  blocks : Bool := false
  /-- Room for the nodes of a tree. -/
  nodes : Bool := false
  /-- A worker that hashes blocks. -/
  leafWorker : Option WorkerRefusal := none
  /-- A worker that looks for a proof. -/
  searchWorker : Option WorkerRefusal := none

/-- A refusal, if the worker is among the first `workers` ones. -/
def WorkerRefusal.among (workers : Nat) (refusal : Option WorkerRefusal) : Option WorkerRefusal :=
  refusal.filter (·.number < workers)

@[simp] theorem WorkerRefusal.among_none (workers : Nat) : among workers none = none := rfl

/-- A machine. -/
structure Machine where
  /-- What is refused to a call, after `requests` earlier ones. -/
  refusals : (requests : Nat) → Refusals := fun _ => {}

/-- Nothing is refused. -/
def Machine.IsGenerous (m : Machine) : Prop := ∀ requests, m.refusals requests = {}

end MemoryHard
