import MemoryHard.Params

/-!
# MemoryHard.Geometry — lanes, slices and segments

The blocks of a memory stand lane after lane.  A lane has four slices, and the part of a lane in
one slice is a segment.  The memory is filled in passes, within a pass slice by slice, and within
a slice lane by lane.

* `Geometry` — lanes, segment length and passes;
* `Position` — where a block is filled, with `Geometry.locate` and `Position.absolute` between
  positions of the first pass and indices;
* `Position.previous` — the block a position chains from;
* `Geometry.isSeed` — the first two blocks of a lane.
-/

namespace MemoryHard

/-- The shape of a memory. -/
structure Geometry where
  lanes : Nat
  segmentLength : Nat
  passes : Nat
deriving DecidableEq

/-- Where a block is filled. -/
structure Position where
  pass : Nat
  lane : Nat
  /-- The slice, below four. -/
  slice : Nat
  /-- The place in the segment. -/
  index : Nat
deriving DecidableEq

/-- The shape of the memory that the parameters ask for. -/
def Params.geometry (p : Params) : Geometry := ⟨p.lanes.toNat, p.segmentLength, p.passes.toNat⟩

namespace Geometry

/-- Blocks of a lane. -/
def laneLength (g : Geometry) : Nat := slices * g.segmentLength

/-- Blocks of the memory. -/
def blockCount (g : Geometry) : Nat := g.lanes * g.laneLength

/-- The index of the first block of a segment. -/
def segmentStart (g : Geometry) (lane slice : Nat) : Nat :=
  lane * g.laneLength + slice * g.segmentLength

/-- The position at which a block is filled in the first pass. -/
def locate (g : Geometry) (block : Nat) : Position where
  pass := 0
  lane := block / g.laneLength
  slice := block % g.laneLength / g.segmentLength
  index := block % g.laneLength % g.segmentLength

/-- Whether a block is one of the two of its lane that nothing comes before. -/
def isSeed (g : Geometry) (block : Nat) : Bool := block % g.laneLength < 2

end Geometry

namespace Position

/-- The index of the block that is filled. -/
def absolute (g : Geometry) (p : Position) : Nat := g.segmentStart p.lane p.slice + p.index

/-- The block a position chains from: the one before it in its lane, and for the first block of
the lane the last one. -/
def previous (g : Geometry) (p : Position) : Nat :=
  let current := p.absolute g
  if current % g.laneLength = 0 then current + g.laneLength - 1 else current - 1

end Position

end MemoryHard
