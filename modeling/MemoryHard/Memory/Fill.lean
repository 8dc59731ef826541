import MemoryHard.Executor

/-!
# MemoryHard.Memory.Fill — filling a memory

A fill writes the seeds and then, slice by slice, the segments of all lanes.  The segments of a
slice are written when all of them are there, so that none of them sees another at work.

* `Fill` — what a fill runs with; `FillRun` — what changes while it runs;
* `Fill.seed`, `Fill.fill`, `Fill.run` — the seeds, all that follows, and both;
* `Fill.slice` — the step from one slice to the next.
-/

namespace MemoryHard

/-- What a fill runs with. -/
structure Fill where
  params : Params
  /-- Who computes the segments. -/
  executor : Executor
  /-- Whether the fill ends when it is called off. -/
  watches : Bool := true

/-- What changes while a fill runs. -/
structure FillRun where
  memory : Memory
  /-- How far the fill has come. -/
  progress : Progress := .untouched
  /-- How many calls the executor has had. -/
  calls : Nat := 0
  /-- Whether the computation is called off. -/
  cancelled : Bool := false

/-- The segments of all lanes in a slice.  The slices of all passes are counted through. -/
def sliceJobs (g : Geometry) (k : Nat) : List SegmentJob :=
  (List.range g.lanes).map fun lane => ⟨k / slices, k % slices, lane⟩

/-- The number of slices in all passes. -/
def sliceCount (g : Geometry) : Nat := slices * g.passes

/-- Writes the segments of some jobs. -/
def Memory.writeSegments (m : Memory) (segments : List (SegmentJob × List Block)) : Memory :=
  segments.foldl (fun m s => m.writeFrom (s.1.start m.geometry) s.2) m

namespace Fill

/-- The first thing wrong with a memory for this fill: the parameters, then its shape. -/
def fault? (f : Fill) (m : Memory) : Option ParameterFault :=
  f.params.fault? <|>
    if m.geometry = f.params.geometry then none
    else some (.otherGeometry m.geometry f.params.geometry)

/-- Slice number `k`.  A failure comes with the state it leaves behind. -/
def slice (f : Fill) (r : FillRun) (k : Nat) : Except (FillRun × Failure) FillRun :=
  let r := { r with progress := .filling (k / slices) (k % slices) }
  if f.watches && r.cancelled then .error (r, .cancelled)
  else
    let jobs := sliceJobs r.memory.geometry k
    let reply := f.executor.run r.calls jobs fun job => some (r.memory.segment job)
    let r := { r with calls := r.calls + 1, cancelled := r.cancelled || reply.cancels }
    match reply.outcome with
    | .error failure => .error (r, failure)
    | .ok segments =>
      if segments.length = jobs.length then
        .ok { r with memory := r.memory.writeSegments (jobs.zip segments) }
      else .error (r, .thread (.wrongCount f.executor.name segments.length jobs.length))

/-- As many slices as `count` says, from number `k` on. -/
def slicesFrom (f : Fill) (r : FillRun) (k : Nat) :
    (count : Nat) → Except (FillRun × Failure) FillRun
  | 0 => .ok r
  | count + 1 =>
    match f.slice r k with
    | .error stop => .error stop
    | .ok r => f.slicesFrom r (k + 1) count

/-- Fills all that follows the seeds. -/
def fill (f : Fill) (r : FillRun) : FillRun × Except Failure Unit :=
  if r.progress ≠ .seeded then (r, .error (.parameter (.notSeeded r.progress)))
  else
    match f.fault? r.memory with
    | some fault => (r, .error (.parameter fault))
    | none =>
      match f.slicesFrom r 0 (sliceCount r.memory.geometry) with
      | .error (r, failure) => (r, .error failure)
      | .ok r => ({ r with progress := .complete }, .ok ())

/-- Writes the seeds. -/
def seed [HashSuite] (f : Fill) (r : FillRun) (inputs : HashInputs) :
    FillRun × Except Failure Unit :=
  if r.progress ≠ .untouched then (r, .error (.parameter .seededTwice))
  else
    match f.fault? r.memory with
    | some fault => (r, .error (.parameter fault))
    | none =>
      ({ r with memory := r.memory.writeSeeds (prehash f.params inputs), progress := .seeded },
        .ok ())

/-- Writes the seeds and fills all that follows. -/
def run [HashSuite] (f : Fill) (r : FillRun) (inputs : HashInputs) :
    FillRun × Except Failure Unit :=
  match f.seed r inputs with
  | (r, .error failure) => (r, .error failure)
  | (r, .ok _) => f.fill r

end Fill

end MemoryHard
