import MemoryHard.Geometry.Reference
import MemoryHard.Memory

/-!
# MemoryHard.Memory.Segment — the blocks of a segment

A segment is computed on its own: what it reads of other segments does not change while it is at
work, and of its own blocks it reads those it has computed so far.

* `SegmentJob` — the segment of a lane in a slice of a pass;
* `Memory.segment` — its blocks.
-/

namespace MemoryHard

/-- The segment of a lane in a slice of a pass. -/
structure SegmentJob where
  pass : Nat
  slice : Nat
  lane : Nat
deriving DecidableEq

namespace SegmentJob

/-- The index of the first block. -/
def start (g : Geometry) (job : SegmentJob) : Nat := g.segmentStart job.lane job.slice

/-- The index after the last block. -/
def stop (g : Geometry) (job : SegmentJob) : Nat := job.start g + g.segmentLength

/-- The position of the block at a place of the segment. -/
def position (job : SegmentJob) (index : Nat) : Position := ⟨job.pass, job.lane, job.slice, index⟩

/-- How many blocks are there before the segment is computed: the seeds of a lane. -/
def given (job : SegmentJob) : Nat := if job.pass = 0 ∧ job.slice = 0 then 2 else 0

end SegmentJob

namespace Memory

/-- The next block of a segment, of which the blocks `done` are computed. -/
def nextBlock (m : Memory) (job : SegmentJob) (done : Array Block) : Block :=
  let g := m.geometry
  let position := job.position done.size
  let previous :=
    if done.size = 0 then m.read (position.previous g) else done.getD (done.size - 1) Block.zero
  let index := g.reference position previous.firstWord
  let reference :=
    if job.start g ≤ index ∧ index < job.stop g then done.getD (index - job.start g) Block.zero
    else m.read index
  let current := job.start g + done.size
  let old := if 0 < job.pass then some (m.read current) else none
  Block.derive previous reference old (m.binding current)

/-- The blocks of a segment. -/
def segment (m : Memory) (job : SegmentJob) : List Block :=
  let start := job.start m.geometry
  let seeds := m.blocks.extract start (start + job.given)
  let computed := (List.range (m.geometry.segmentLength - job.given)).foldl
    (fun done _ => done.push (m.nextBlock job done)) seeds
  computed.toList

end Memory

end MemoryHard
