import MemoryHard.Commitment.Collision
import MemoryHard.Proof

/-!
# MemoryHard.Proof.Collision — what is hashed for the paths of a proof

* `Opening.messages` — what is hashed when the path of a revealed block is followed;
* `Proof.messages` — the same for all blocks that a proof reveals.
-/

namespace MemoryHard

open MemoryHard.Bytes

variable [HashSuite]

/-- What is hashed when the path of a revealed block is followed; nothing if there is no block
in the opening. -/
def Opening.messages (o : Opening) (c : Challenge) (width : Nat) : List Bytes :=
  match o.block? with
  | some block => o.path.messages c width o.index.toNat block
  | none => []

/-- What is hashed when the paths of all revealed blocks are followed. -/
def Proof.messages (proof : Proof) (c : Challenge) (width : Nat) : List Bytes :=
  (proof.steps.flatMap Step.openings).flatMap fun o => o.messages c width

end MemoryHard
