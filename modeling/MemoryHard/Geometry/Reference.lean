import MemoryHard.Geometry

/-!
# MemoryHard.Geometry.Reference — which block a position refers to

The reference of a position is drawn from the first word of the block it chains from.  The high
half picks a lane, the low half a block of that lane among those that are complete: a window of
the lane, with newer blocks likelier than older ones.

* `windowSize`, `windowStart` — the window;
* `age` — how far back in a window a number below `2 ^ 32` reaches;
* `reference` — the index of the reference.
-/

namespace MemoryHard.Geometry

/-- How many blocks of a lane a position may refer to.  In its own lane these are the blocks
completed so far but the last one; in another lane those of the completed segments, without the
last one at the start of a segment. -/
def windowSize (g : Geometry) (p : Position) (ownLane : Bool) : Nat :=
  let completed :=
    if p.pass ≠ 0 then g.laneLength - g.segmentLength
    else p.slice * g.segmentLength
  if p.pass = 0 ∧ p.slice = 0 then p.index - 1
  else if ownLane then completed + p.index - 1
  else if p.index = 0 then completed - 1
  else completed

/-- Where the window begins: from the second pass on, after the segment at work. -/
def windowStart (g : Geometry) (p : Position) : Nat :=
  if p.pass ≠ 0 ∧ p.slice ≠ slices - 1 then (p.slice + 1) * g.segmentLength else 0

/-- How many blocks of a window of `size` blocks are newer than the one that `r < 2 ^ 32` picks. -/
def age (size r : Nat) : Nat := size * (r * r / UInt32.size) / UInt32.size

/-- The place in its lane of the block that the low half of a word picks. -/
def pick (g : Geometry) (p : Position) (low : Nat) (ownLane : Bool) : Nat :=
  let size := g.windowSize p ownLane
  (g.windowStart p + (size - 1 - age size low)) % g.laneLength

/-- The lane that a word picks: the own one while no other has anything to offer. -/
def referenceLane (g : Geometry) (p : Position) (word : UInt64) : Nat :=
  if p.pass = 0 ∧ p.slice = 0 then p.lane else word.toNat / UInt32.size % g.lanes

/-- The index of the block that a position refers to, given the first word of the block it
chains from. -/
def reference (g : Geometry) (p : Position) (word : UInt64) : Nat :=
  let lane := g.referenceLane p word
  lane * g.laneLength + g.pick p (word.toNat % UInt32.size) (lane = p.lane)

end MemoryHard.Geometry
