import MemoryHard.Geometry.Reference
import MemoryHard.Memory.Revealed
import MemoryHard.Prehash
import MemoryHard.Proof
import MemoryHard.Proof.Rejection
import MemoryHard.Proof.Walk

/-!
# MemoryHard.Proof.Verify — checking a proof

A proof is checked without filling a memory.  Every revealed block has to belong to the root,
the walk over the revealed blocks has to visit those of the steps and to end at the digest, and
every block visited has to be the one that is derived in its place.

* `Proof.revealAll` — the revealed blocks, each checked against the root;
* `Proof.checkWalk` — the walk, its digest and the target;
* `Proof.checkDerivations` — the blocks visited, derived again;
* `Proof.verify` — all of this in order.
-/

namespace MemoryHard

open MemoryHard.Bytes

variable [HashSuite]

/-- The block in an opening, if its path leads to the root. -/
def Opening.check (o : Opening) (p : Params) (c : Challenge) (root : Bytes) :
    Except Rejection Block :=
  if p.blockCount ≤ o.index.toNat then .error (.indexOutOfRange o.index.toNat)
  else
    match o.block? with
    | none => .error (.malformedBlock o.index.toNat)
    | some block =>
      if o.path.verify c p.nodeWidth p.blockCount o.index.toNat block root then .ok block
      else .error (.pathMismatch o.index.toNat)

/-- The first place at which two lists differ, counted from `step`, as long as both go on. -/
def firstMismatch (step : Nat) : List Nat → List Nat → Option Rejection
  | expected :: es, actual :: as =>
    if expected = actual then firstMismatch (step + 1) es as
    else some (.selectionMismatch step expected actual)
  | _, _ => none

namespace Proof

/-- Reveals the blocks of some openings, each after its check. -/
def revealOpenings (p : Params) (c : Challenge) (root : Bytes) (known : Revealed) :
    List Opening → Except Rejection Revealed
  | [] => .ok known
  | o :: rest =>
    match o.check p c root with
    | .error rejection => .error rejection
    | .ok block => revealOpenings p c root (known.insert o.index.toNat block) rest

/-- The blocks that a proof reveals. -/
def revealAll (proof : Proof) (p : Params) (c : Challenge) : Except Rejection Revealed :=
  revealOpenings p c proof.root {} (proof.steps.flatMap Step.openings)

/-- Checks the walk of a proof over the revealed blocks, and its digest. -/
def checkWalk (proof : Proof) (p : Params) (c : Challenge) (target : Target) (known : Revealed) :
    Except Rejection Unit :=
  match walk known.get? p c proof.root proof.nonce with
  | (_, none) => .error .unprovenBlock
  | (visited, some digest) =>
    match firstMismatch 0 visited (proof.selectedIndices.map UInt32.toNat) with
    | some rejection => .error rejection
    | none =>
      if digest ≠ proof.digest then .error .digestMismatch
      else if target.isMetBy digest then .ok () else .error .difficultyNotMet

/-- The block that is derived in the place of the one a step visits. -/
def derivedBlock (p : Params) (h0 : Bytes) (job : JobWords) (known : Revealed) (step : Step) :
    Except Rejection Block :=
  let g := p.geometry
  let i := step.selected.index.toNat
  if g.isSeed i then .ok (seedBlock h0 (i / g.laneLength) (i % g.laneLength))
  else
    match step.previous, step.reference with
    | some previous, some reference =>
      match known.get? previous.index.toNat with
      | none => .error (.missingAntecedent i)
      | some before =>
        let index := g.reference (g.locate i) before.firstWord
        if previous.index.toNat ≠ i - 1 ∨ reference.index.toNat ≠ index then
          .error (.antecedentMismatch i)
        else
          match known.get? index with
          | none => .error (.missingAntecedent i)
          | some other => .ok (Block.derive before other none (some ⟨job, UInt64.ofNat i⟩))
    | _, _ => .error (.missingAntecedent i)

/-- Checks that the block a step visits is the one derived in its place. -/
def checkStep (p : Params) (h0 : Bytes) (job : JobWords) (known : Revealed) (step : Step) :
    Except Rejection Unit :=
  let i := step.selected.index.toNat
  match known.get? i with
  | none => .error .unprovenBlock
  | some block =>
    match derivedBlock p h0 job known step with
    | .error rejection => .error rejection
    | .ok expected => if block = expected then .ok () else .error (.derivationMismatch i)

/-- Checks the blocks visited, step by step. -/
def checkDerivations (p : Params) (h0 : Bytes) (job : JobWords) (known : Revealed) :
    List Step → Except Rejection Unit
  | [] => .ok ()
  | step :: rest =>
    match checkStep p h0 job known step with
    | .error rejection => .error rejection
    | .ok _ => checkDerivations p h0 job known rest

/-- Checks a proof for the job with the given header and target. -/
def verify (proof : Proof) (p : Params) (header : Bytes) (target : Target) :
    Except Rejection Unit := do
  match p.validateForProof with
  | .error failure => throw (.params failure)
  | .ok _ => pure ()
  if proof.steps.length ≠ p.searchLength.toNat then
    throw (.stepCount p.searchLength.toNat proof.steps.length)
  if proof.root.length ≠ p.nodeWidth then throw (.malformedRoot proof.root.length)
  let challenge := Challenge.ofHeader header
  let known ← proof.revealAll p challenge
  proof.checkWalk p challenge target known
  checkDerivations p (prehash p (.ofHeader header)) challenge.jobWords known proof.steps

end Proof

end MemoryHard
