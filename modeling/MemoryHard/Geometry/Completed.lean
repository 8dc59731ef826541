import MemoryHard.Geometry

/-!
# MemoryHard.Geometry.Completed — which blocks are complete

While a slice is at work its lanes do not see each other.  A block is complete for a position if
it stands where nobody writes at the time, or comes before the position in the same segment.

* `Position.IsLegal` — the positions at which a block is derived;
* `Geometry.IsComplete` — the blocks that are complete for a position;
* `Geometry.newest` — the last of them in a lane other than that of the position.
-/

namespace MemoryHard

/-- A block is derived at this position. -/
def Position.IsLegal (g : Geometry) (p : Position) : Prop :=
  p.slice < slices ∧ p.lane < g.lanes ∧ p.index < g.segmentLength ∧
    (p.pass = 0 → p.slice = 0 → 2 ≤ p.index)

instance (g : Geometry) (p : Position) : Decidable (p.IsLegal g) :=
  inferInstanceAs (Decidable (_ ∧ _))

namespace Geometry

/-- The block at a place of a lane is complete when the position `p` is at work.  In the slice at
work only the own lane counts, up to the position; the other slices count if they were filled
in this pass or in an earlier one. -/
def IsComplete (g : Geometry) (p : Position) (lane place : Nat) : Prop :=
  if place / g.segmentLength = p.slice then
    lane = p.lane ∧ place % g.segmentLength < p.index
  else p.pass = 0 → place / g.segmentLength < p.slice

instance (g : Geometry) (p : Position) (lane place : Nat) :
    Decidable (g.IsComplete p lane place) :=
  inferInstanceAs (Decidable (if place / g.segmentLength = p.slice then _ ∧ _ else _ → _))

/-- The place in a lane of the block that was completed last before the slice at work. -/
def newest (g : Geometry) (p : Position) : Nat :=
  (p.slice * g.segmentLength + g.laneLength - 1) % g.laneLength

end Geometry

end MemoryHard
