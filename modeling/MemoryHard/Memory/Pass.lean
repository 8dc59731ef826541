import MemoryHard.Geometry.Checked
import MemoryHard.Memory.Fill

/-!
# MemoryHard.Memory.Pass — the segments of a pass

A pass computes the segments of all lanes, slice after slice.

* `Geometry.passJobs` — the segments of a pass;
* `SegmentJob.indices` — the indices of the blocks of a segment;
* `SegmentJob.range?` — the bounds of these indices, computed on 64-bit words.
-/

namespace MemoryHard

open Word

/-- The segments of a pass, in the order in which a fill has them computed. -/
def Geometry.passJobs (g : Geometry) (pass : Nat) : List SegmentJob :=
  (List.range slices).flatMap fun slice => sliceJobs g (slices * pass + slice)

namespace SegmentJob

/-- The indices of the blocks of a segment. -/
def indices (g : Geometry) (job : SegmentJob) : List Nat :=
  List.range' (job.start g) (job.stop g - job.start g)

/-- The index of the first block and the one after the last, on 64-bit words. -/
def range? (g : Geometry) (job : SegmentJob) : Option (Nat × Nat) := do
  let start ← g.segmentStart? job.lane job.slice
  return (start, ← add? start g.segmentLength)

end SegmentJob

end MemoryHard
