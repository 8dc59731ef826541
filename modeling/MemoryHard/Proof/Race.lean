import MemoryHard.Proof.Search

/-!
# MemoryHard.Proof.Race — several workers looking for a proof

The nonces of a search may be split among workers that run side by side.  They share a slot for
the first proof found and a flag that calls the search off.  A schedule says who takes the next
turn, so that every way in which their steps may fall is the run of some schedule.

* `Race` — the workers, the slot and the flag, with `Race.turn` and `Race.run`;
* `Race.outcome` — what the workers come to when all of them are done;
* `Prover.race` — the race of a search; `turnsFrom` — its turns, if the work may be called off
  before it begins;
* `Prover.searchUnder?` — a search whose workers take given turns.
-/

namespace MemoryHard

open MemoryHard.Bytes

/-- What a worker is about to do. -/
inductive Work where
  /-- Look at the slot and the flag, with the nonces from `next` on and before `stop` to go. -/
  | look (next stop : Nat)
  /-- Take the walk of the nonce `next`. -/
  | attempt (next stop : Nat)
  /-- Put a proof into the slot. -/
  | deliver (proof : Proof)
  /-- Nothing more. -/
  | rest
  /-- Nothing more, as there is no room for its walks. -/
  | stopped
deriving DecidableEq

/-- Whether there is nothing left to do. -/
def Work.isDone : Work → Bool
  | .rest | .stopped => true
  | .look _ _ | .attempt _ _ | .deliver _ => false

/-- Some workers, and what they share. -/
structure Race where
  /-- What each worker is about to do. -/
  workers : List Work
  /-- The first proof found. -/
  slot : Option Proof := none
  /-- Whether the search is called off. -/
  cancelled : Bool := false
  /-- The nonces whose walk has been taken. -/
  tried : List Nat := []

/-- Whose turn it is. -/
inductive Turn where
  /-- A worker takes a step. -/
  | worker (number : Nat)
  /-- The search is called off. -/
  | cancel
deriving DecidableEq

namespace Race

/-- A race before its first turn. -/
def start (chunks : List (Nat × Nat)) : Race := { workers := chunks.map fun c => .look c.1 c.2 }

/-- What a worker does next after a look: without room for a walk it stops, and else it rests once
there is a proof, the search is called off or no nonce is left. -/
def afterLook (r : Race) (p : Prover) (next stop : Nat) : Work :=
  if !p.params.walkFits then .stopped
  else if stop ≤ next ∨ r.slot.isSome ∨ r.cancelled then .rest
  else .attempt next stop

variable [HashSuite]

/-- What a worker does next after the walk of a nonce. -/
def afterAttempt (p : Prover) (target : Target) (next stop : Nat) : Work :=
  let nonce := UInt32.ofNat next
  match p.win? target nonce with
  | none => .look (next + 1) stop
  | some (visited, digest) =>
    match p.assemble nonce digest visited with
    | some proof => .deliver proof
    | none => .rest

/-- One step of a worker. -/
def step (p : Prover) (target : Target) (r : Race) (number : Nat) : Race :=
  match r.workers[number]? with
  | some (.look next stop) =>
    { r with workers := r.workers.set number (r.afterLook p next stop) }
  | some (.attempt next stop) =>
    { r with
      workers := r.workers.set number (afterAttempt p target next stop)
      tried := next :: r.tried }
  | some (.deliver proof) =>
    { r with workers := r.workers.set number .rest, slot := r.slot <|> some proof }
  | some .rest | some .stopped | none => r

/-- One turn. -/
def turn (p : Prover) (target : Target) (r : Race) : Turn → Race
  | .worker number => r.step p target number
  | .cancel => { r with cancelled := true }

/-- The turns of a schedule in order. -/
def run (p : Prover) (target : Target) (r : Race) (schedule : List Turn) : Race :=
  schedule.foldl (turn p target) r

omit [HashSuite]

/-- Whether all workers are done. -/
def isOver (r : Race) : Bool := r.workers.all Work.isDone

/-- What a search comes to: a failure if a worker has stopped, else the proof in the slot, and
without one whether it was called off. -/
def outcome (r : Race) : Except Failure (Option Proof) :=
  if .stopped ∈ r.workers then .error (roomFailure r.workers.length)
  else
    match r.slot with
    | some proof => .ok (some proof)
    | none => if r.cancelled then .error .cancelled else .ok none

end Race

/-- The turns of a search, where the work may be called off before the first of them. -/
def turnsFrom (cancelled : Bool) (schedule : List Turn) : List Turn :=
  if cancelled then .cancel :: schedule else schedule

namespace Prover

variable [HashSuite]

/-- The race of a search in a range of nonces, after the turns of a schedule. -/
def race (p : Prover) (target : Target) (start stop : UInt32) (schedule : List Turn) : Race :=
  (Race.start (nonceChunks p.params.jobs.toNat start.toNat stop.toNat)).run p target schedule

/-- What a search comes to whose workers take the turns of a schedule, if all of them are done
then.  What comes before the race is as in `Prover.search`. -/
def searchUnder? (p : Prover) (target : Target) (start stop : UInt32) (schedule : List Turn)
    (refusals : Refusals := {}) : Option (Except Failure (Option Proof)) :=
  match p.params.validateForProof with
  | .error failure => some (.error failure)
  | .ok _ =>
    if stop ≤ start then some (.ok none)
    else
      match p.params.refusedSearch? start stop refusals with
      | some failure => some (.error failure)
      | none =>
        let race := p.race target start stop schedule
        if race.isOver then some race.outcome else none

end Prover

end MemoryHard
