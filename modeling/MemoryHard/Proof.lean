import MemoryHard.Commitment.Path
import MemoryHard.Target

/-!
# MemoryHard.Proof — proofs of work

A proof names a nonce and the digest its walk ends at, and reveals the blocks the walk visits
together with the blocks those are derived from.

* `Opening` — a block with its index and its path to the root;
* `Step` — what is revealed for one step of the walk;
* `Proof` — a proof.
-/

namespace MemoryHard

open MemoryHard.Bytes

/-- A revealed block. -/
structure Opening where
  index : UInt32
  block : Bytes
  path : HashPath
deriving DecidableEq

/-- The block in an opening, if it has the bytes of one. -/
def Opening.block? (o : Opening) : Option Block := Block.ofBytes? o.block

/-- What is revealed for one step of a walk. -/
structure Step where
  /-- The block the step visits. -/
  selected : Opening
  /-- The block it chains from; seeds have none. -/
  previous : Option Opening := none
  /-- The block it refers to; seeds have none. -/
  reference : Option Opening := none
deriving DecidableEq

namespace Step

/-- All that is revealed for a step. -/
def openings (s : Step) : List Opening := s.selected :: (s.previous.toList ++ s.reference.toList)

end Step

/-- A proof of work. -/
structure Proof where
  nonce : UInt32
  /-- The root of the tree over the memory. -/
  root : Bytes
  /-- The digest the walk ends at. -/
  digest : WalkDigest
  /-- What is revealed, step by step. -/
  steps : List Step
deriving DecidableEq

/-- The indices of the blocks that the steps visit. -/
def Proof.selectedIndices (p : Proof) : List UInt32 := p.steps.map (·.selected.index)

end MemoryHard
