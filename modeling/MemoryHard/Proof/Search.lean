import MemoryHard.Commitment.Tree
import MemoryHard.Geometry.Reference
import MemoryHard.Proof
import MemoryHard.Proof.Walk

/-!
# MemoryHard.Proof.Search — looking for a proof

Nonces are tried in ascending order until the walk of one ends at a digest that meets the target.

* `Params.walkFits` — whether there is room for a walk;
* `nonceChunks`, `Params.refusedSearch?` — how the nonces are split among workers, and what becomes
  of the search if one of these cannot be started;
* `Prover` — what a search runs with;
* `Prover.assemble` — the proof of a nonce whose walk is known;
* `Prover.search` — the first proof in a range of nonces.
-/

namespace MemoryHard

open MemoryHard.Bytes

/-- Whether there is room for the indices a walk visits, each a word of eight bytes. -/
def Params.walkFits (p : Params) : Bool := hasRoom (8 * p.searchLength.toNat)

/-- The number of workers that share `total` nonces: no more than wished, but at least one, and
none without a nonce. -/
def searchWorkers (wish total : Nat) : Nat := min (max wish 1) total

/-- The nonces from `start` on and before `stop`, split in chunks for at most `jobs` workers.
All chunks but the last are equally long, and none is empty. -/
def nonceChunks (jobs start stop : Nat) : List (Nat × Nat) :=
  let total := stop - start
  let workers := searchWorkers jobs total
  let length := (total + workers - 1) / workers
  let chunk (w : Nat) : Nat × Nat :=
    (start + w * length, min (start + w * length + length) stop)
  ((List.range workers).map chunk).filter fun c => c.1 < c.2

/-- What a search without room for a walk comes to.  A lone worker works in the place of its
caller and takes it along. -/
def roomFailure (workers : Nat) : Failure :=
  if workers = 1 then .stopped else .thread .searchStopped

/-- What becomes of a search one of whose workers cannot be started, if there is such a one.  A
lone worker needs no start.  Whatever those before it find is lost; without room for a walk they
have stopped, and take the caller along. -/
def Params.refusedSearch? (p : Params) (start stop : UInt32) (refusals : Refusals) :
    Option Failure :=
  if searchWorkers p.jobs.toNat (stop.toNat - start.toNat) = 1 then none
  else
    let workers := (nonceChunks p.jobs.toNat start.toNat stop.toNat).length
    (WorkerRefusal.among workers refusals.searchWorker).map fun refusal =>
      if p.walkFits ∨ refusal.number = 0 then .thread (.searchWorkerRefused refusal.reason)
      else .stopped

theorem Params.refusedSearch?_of_granted (p : Params) (start stop : UInt32) :
    p.refusedSearch? start stop {} = none := by
  unfold refusedSearch?
  split <;> rfl

theorem Params.ne_cancelled_of_refusedSearch? {p : Params} {start stop : UInt32}
    {refusals : Refusals} {failure : Failure}
    (h : p.refusedSearch? start stop refusals = some failure) : failure ≠ .cancelled := by
  unfold refusedSearch? at h
  split at h
  · cases h
  · obtain ⟨refusal, -, rfl⟩ := Option.map_eq_some_iff.1 h
    split <;> simp

/-- What a search runs with. -/
structure Prover where
  params : Params
  challenge : Challenge
  memory : Memory
  tree : HashTree

namespace Prover

/-- A number as a 32-bit word, if it fits. -/
def word32? (n : Nat) : Option UInt32 := if n < UInt32.size then some (UInt32.ofNat n) else none

/-- Reveals the block at an index. -/
def reveal? (p : Prover) (i : Nat) : Option Opening := do
  let block ← p.memory.get? i
  return ⟨← word32? i, block.toBytes, ← p.tree.path? i⟩

/-- Reveals a block that a walk visits, and the two blocks it is derived from. -/
def step? (p : Prover) (i : Nat) : Option Step := do
  let selected ← p.reveal? i
  let g := p.memory.geometry
  if g.isSeed i then return ⟨selected, none, none⟩
  else
    let previous ← p.memory.get? (i - 1)
    let reference := g.reference (g.locate i) previous.firstWord
    return ⟨selected, some (← p.reveal? (i - 1)), some (← p.reveal? reference)⟩

/-- The proof of a nonce whose walk visits the given blocks and ends at the given digest. -/
def assemble (p : Prover) (nonce : UInt32) (digest : WalkDigest) (visited : List Nat) :
    Option Proof := do
  return ⟨nonce, p.tree.root, digest, ← visited.mapM p.step?⟩

variable [HashSuite]

/-- What the walk of a nonce visits, and the digest it ends at. -/
def walk (p : Prover) (nonce : UInt32) : List Nat × Option WalkDigest :=
  MemoryHard.walk p.memory.get? p.params p.challenge p.tree.root nonce

/-- Whether the walk of a nonce ends at a digest that meets the target, and if so what it visits
and where it ends. -/
def win? (p : Prover) (target : Target) (nonce : UInt32) : Option (List Nat × WalkDigest) :=
  match p.walk nonce with
  | (visited, some digest) => if target.isMetBy digest then some (visited, digest) else none
  | (_, none) => none

/-- The proof of the first nonce that wins among `count` ones from `nonce` on. -/
def searchFrom (p : Prover) (target : Target) : (count : Nat) → UInt32 → Option Proof
  | 0, _ => none
  | count + 1, nonce =>
    match p.win? target nonce with
    | some (visited, digest) => p.assemble nonce digest visited
    | none => p.searchFrom target count (nonce + 1)

/-- The proof of the first nonce that wins from `start` on and before `stop`.  Nothing is tried
without its workers, without room for a walk or once the search is called off, but an empty range
is no failure. -/
def search (p : Prover) (target : Target) (start stop : UInt32) (cancelled : Bool)
    (refusals : Refusals := {}) : Except Failure (Option Proof) :=
  match p.params.validateForProof with
  | .error failure => .error failure
  | .ok _ =>
    if stop ≤ start then .ok none
    else
      match p.params.refusedSearch? start stop refusals with
      | some failure => .error failure
      | none =>
        if !p.params.walkFits then
          .error (roomFailure (searchWorkers p.params.jobs.toNat (stop.toNat - start.toNat)))
        else if cancelled then .error .cancelled
        else .ok (p.searchFrom target (stop.toNat - start.toNat) start)

end Prover

end MemoryHard
