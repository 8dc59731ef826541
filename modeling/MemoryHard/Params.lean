/-!
# MemoryHard.Params — the parameters of a computation

The parameters fix the shape of the memory, the commitment to it and the search.  Prover and
verifier have to agree on all of them but the number of jobs.

* `Params` — the parameters; those of a `Params` without arguments are the usual ones;
* `Params.segmentLength`, `laneLength`, `blockCount` — the sizes that follow from them.
-/

namespace MemoryHard

/-- The number of slices of a lane.  All lanes wait for each other after every slice. -/
def slices : Nat := 4

/-- The parameters of a computation. -/
structure Params where
  /-- Number of lanes, which are filled side by side. -/
  lanes : UInt32 := 4
  /-- Number of blocks asked for. -/
  memoryCost : UInt32 := 65536
  /-- Number of passes over the memory. -/
  passes : UInt32 := 1
  /-- Length of the tag in bytes. -/
  tagLength : UInt32 := 32
  /-- Width of the nodes of the commitment in bytes. -/
  nodeSize : UInt64 := 16
  /-- Number of blocks a nonce visits. -/
  searchLength : UInt64 := 70
  /-- Leading zero bits asked of a digest where no target is given. -/
  difficultyBits : UInt64 := 16
  /-- Number of jobs that may run side by side. -/
  jobs : UInt64 := 1
deriving DecidableEq

namespace Params

/-- Blocks of a segment: the memory is rounded down to whole segments. -/
def segmentLength (p : Params) : Nat := p.memoryCost.toNat / (slices * p.lanes.toNat)

/-- Blocks of a lane. -/
def laneLength (p : Params) : Nat := p.segmentLength * slices

/-- Blocks of the whole memory. -/
def blockCount (p : Params) : Nat := p.laneLength * p.lanes.toNat

/-- Width of the nodes in bytes, as a number. -/
def nodeWidth (p : Params) : Nat := p.nodeSize.toNat

end Params

end MemoryHard
