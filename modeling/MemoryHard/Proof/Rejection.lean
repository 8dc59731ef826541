import MemoryHard.Failure

/-!
# MemoryHard.Proof.Rejection — why a proof is not accepted

* `Rejection` — the reasons, with `Rejection.message` for their wording;
* `Rejection.cause?` — the failure behind a rejection, if there is one.
-/

namespace MemoryHard

/-- Why a proof is not accepted. -/
inductive Rejection where
  /-- Nothing can be proved with the parameters. -/
  | params (failure : Failure)
  /-- The proof has too many or too few steps. -/
  | stepCount (expected actual : Nat)
  /-- The root does not have the width of a node. -/
  | malformedRoot (length : Nat)
  /-- There is no block with this index. -/
  | indexOutOfRange (index : Nat)
  /-- The bytes revealed for a block are not those of one. -/
  | malformedBlock (index : Nat)
  /-- The path of a block does not lead to the root. -/
  | pathMismatch (index : Nat)
  /-- The walk visits a block that is not revealed. -/
  | unprovenBlock
  /-- A step reveals another block than the walk visits. -/
  | selectionMismatch (step expected actual : Nat)
  /-- The walk ends at another digest. -/
  | digestMismatch
  /-- The digest is above the target. -/
  | difficultyNotMet
  /-- A block is revealed without the blocks it is derived from. -/
  | missingAntecedent (index : Nat)
  /-- Other blocks are revealed than those a block is derived from. -/
  | antecedentMismatch (index : Nat)
  /-- A block is not the one derived in its place. -/
  | derivationMismatch (index : Nat)
deriving DecidableEq

namespace Rejection

/-- The wording of a rejection. -/
def message : Rejection → String
  | .params failure => s!"invalid verification parameters: {failure.message}"
  | .stepCount expected actual => s!"expected {expected} search steps, proof has {actual}"
  | .malformedRoot length => s!"Merkle root has {length} bytes"
  | .indexOutOfRange index => s!"block index {index} is out of range"
  | .malformedBlock index => s!"revealed block {index} has the wrong size"
  | .pathMismatch index => s!"Merkle path for block {index} does not match the root"
  | .unprovenBlock => "search walk reached a block not provided in the proof"
  | .selectionMismatch step expected actual =>
    s!"step {step} selects block {expected}, proof opens block {actual}"
  | .digestMismatch => "recomputed digest does not match the proof"
  | .difficultyNotMet => "proof digest does not meet the target"
  | .missingAntecedent index =>
    s!"block {index} is revealed without its previous and reference blocks"
  | .antecedentMismatch index => s!"wrong previous or reference block revealed for block {index}"
  | .derivationMismatch index => s!"block {index} was not produced by the memory fill"

/-- The failure behind a rejection. -/
def cause? : Rejection → Option Failure
  | .params failure => some failure
  | _ => none

end Rejection

end MemoryHard
