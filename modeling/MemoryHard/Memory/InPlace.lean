import MemoryHard.Memory.Segment

/-!
# MemoryHard.Memory.InPlace — filling a memory block by block

The plain way to fill a memory has no segments that wait for each other: one block after the
other is overwritten where it stands, and every block sees what was written before.  Within a
slice the lanes may be taken in any order.

* `Memory.overwrite` — one block;
* `Memory.overwriteSegment`, `overwriteSlice`, `overwriteSlices` — the blocks of a segment, of
  all lanes in a slice, and of the slices up to some number.
-/

namespace MemoryHard

namespace Memory

/-- Overwrites the block at a position.  From the second pass on the old block is added in. -/
def overwrite (m : Memory) (p : Position) : Memory :=
  let g := m.geometry
  let i := p.absolute g
  let previous := m.read (p.previous g)
  let reference := m.read (g.reference p previous.firstWord)
  let old := if 0 < p.pass then some (m.read i) else none
  m.write i (Block.derive previous reference old (m.binding i))

/-- Overwrites the blocks of a segment in order; seeds are left alone. -/
def overwriteSegment (m : Memory) (job : SegmentJob) : Memory :=
  (List.range' job.given (m.geometry.segmentLength - job.given)).foldl
    (fun m index => m.overwrite (job.position index)) m

/-- Overwrites the segments of slice number `k`, lane by lane. -/
def overwriteSlice (m : Memory) (lanes : List Nat) (k : Nat) : Memory :=
  lanes.foldl (fun m lane => m.overwriteSegment ⟨k / slices, k % slices, lane⟩) m

/-- Overwrites the first `count` slices, each with the lanes in an order of its own. -/
def overwriteSlices (m : Memory) (order : Nat → List Nat) (count : Nat) : Memory :=
  (List.range count).foldl (fun m k => m.overwriteSlice (order k) k) m

end Memory

end MemoryHard
