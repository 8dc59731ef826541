import MemoryHard.Failure

/-!
# MemoryHard.Params.Validity — parameters that describe a computation

* `Params.fault?` — the first thing wrong with the parameters of a fill and a commitment;
* `Params.proofFault?` — the same for a proof, which needs a single pass;
* `Params.validate`, `Params.validateForProof` — both as checks.
-/

namespace MemoryHard

/-- The largest number of lanes. -/
def maxLanes : Nat := 0xffffff

/-- The smallest width of a node. -/
def minNodeWidth : Nat := 8

/-- The largest width of a node. -/
def maxNodeWidth : Nat := 64

/-- The number of bits of a digest. -/
def digestBits : Nat := 256

namespace Params

/-- The smallest memory for the lanes: two blocks for each segment. -/
def memoryFloor (p : Params) : Nat := 2 * slices * p.lanes.toNat

/-- The first thing wrong with the parameters, if anything is. -/
def fault? (p : Params) : Option ParameterFault :=
  if p.lanes.toNat = 0 then some .noLanes
  else if maxLanes < p.lanes.toNat then some (.tooManyLanes p.lanes.toNat)
  else if p.memoryCost.toNat < p.memoryFloor then
    some (.memoryTooSmall p.memoryCost.toNat p.memoryFloor p.lanes.toNat)
  else if p.passes.toNat = 0 then some .noPasses
  else if p.tagLength.toNat < 4 then some (.shortTag p.tagLength.toNat)
  else if p.nodeWidth < minNodeWidth ∨ maxNodeWidth < p.nodeWidth then some (.nodeWidth p.nodeWidth)
  else if p.searchLength.toNat = 0 then some .noSteps
  else if digestBits < p.difficultyBits.toNat then some (.difficulty p.difficultyBits.toNat)
  else none

/-- The first thing wrong with the parameters of a proof, if anything is.  With more than one
pass the blocks that a block is derived from are gone in the end. -/
def proofFault? (p : Params) : Option ParameterFault :=
  p.fault? <|> if p.passes.toNat = 1 then none else some (.passesInProof p.passes.toNat)

/-- Passes if nothing is wrong with the parameters. -/
def validate (p : Params) : Except Failure Unit :=
  match p.fault? with
  | some fault => .error (.parameter fault)
  | none => .ok ()

/-- Passes if nothing is wrong with the parameters of a proof. -/
def validateForProof (p : Params) : Except Failure Unit :=
  match p.proofFault? with
  | some fault => .error (.parameter fault)
  | none => .ok ()

end Params

end MemoryHard
