import MemoryHard.Executor

/-!
# MemoryHard.Executor.Conduct — what is asked of an executor

The task of a fill has a result for every job, so nothing is asked of an executor but for such
tasks.  What it makes of a job that stops is its own affair.

* `ReturnsInOrder`, `IsQuiet`, `IsReliable` — all results in the order of the jobs, no calling off,
  and both;
* `IsHonest` — true results, if any.
-/

namespace MemoryHard.Executor

/-- Every call hands back the results of the jobs in order.  The work may be called off
meanwhile. -/
def ReturnsInOrder (e : Executor) : Prop :=
  ∀ calls jobs (f : SegmentJob → List Block),
    (e.run calls jobs fun job => some (f job)).outcome = .ok (jobs.map f)

/-- No call calls the work off. -/
def IsQuiet (e : Executor) : Prop :=
  ∀ calls jobs (f : SegmentJob → List Block),
    (e.run calls jobs fun job => some (f job)).cancels = false

/-- Every call hands back the results of the jobs in order, and none calls the work off. -/
structure IsReliable (e : Executor) : Prop where
  returnsInOrder : e.ReturnsInOrder
  isQuiet : e.IsQuiet

/-- A call fails, or hands back too few or too many results, or those of the jobs in order.  The
work may be called off meanwhile. -/
def IsHonest (e : Executor) : Prop :=
  ∀ calls jobs (f : SegmentJob → List Block),
    let reply := e.run calls jobs fun job => some (f job)
    (∃ failure, reply.outcome = .error failure) ∨
    (∃ results, reply.outcome = .ok results ∧ results.length ≠ jobs.length) ∨
    reply.outcome = .ok (jobs.map f)

theorem ReturnsInOrder.isHonest {e : Executor} (h : e.ReturnsInOrder) : e.IsHonest :=
  fun calls jobs f => .inr (.inr (h calls jobs f))

theorem IsReliable.isHonest {e : Executor} (h : e.IsReliable) : e.IsHonest :=
  h.returnsInOrder.isHonest

end MemoryHard.Executor
