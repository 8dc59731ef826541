import MemoryHard.Proofs.Geometry.Layout

/-!
# MemoryHard.Proofs.Geometry.Complete — the blocks that are complete

While a position is at work the blocks of the other slices are complete, in its own slice those
before it, and from the second pass on all that the pass before has left.  The block a position
chains from is one of them.

* `isComplete_iff` — the complete blocks as a range of places;
* `previous_eq`, `previous_eq_mod` — the block a position chains from;
* `previous_lt`, `isComplete_previous` — it is there, and complete.
-/

namespace MemoryHard.Geometry

variable {g : Geometry} {p : Position}

/-! ## Complete blocks -/

/-- A block is complete in the slices before the one at work, in the own lane up to the position,
and after the first pass in the slices behind. -/
theorem isComplete_iff (hi : p.index < g.segmentLength) (lane place : Nat) :
    g.IsComplete p lane place ↔ place < p.slice * g.segmentLength ∨
      (lane = p.lane ∧ p.slice * g.segmentLength ≤ place ∧ place < p.place g) ∨
      (p.pass ≠ 0 ∧ (p.slice + 1) * g.segmentLength ≤ place) := by
  have hS : 0 < g.segmentLength := by omega
  have hlo : p.slice ≤ place / g.segmentLength ↔ p.slice * g.segmentLength ≤ place :=
    Nat.le_div_iff_mul_le hS
  have hhi : p.slice + 1 ≤ place / g.segmentLength ↔ (p.slice + 1) * g.segmentLength ≤ place :=
    Nat.le_div_iff_mul_le hS
  have hmod := Nat.div_add_mod place g.segmentLength
  have hstep : (p.slice + 1) * g.segmentLength = p.slice * g.segmentLength + g.segmentLength :=
    Nat.succ_mul _ _
  unfold IsComplete Position.place
  by_cases h : place / g.segmentLength = p.slice
  · rw [if_pos h]
    rw [h, Nat.mul_comm] at hmod
    omega
  · rw [if_neg h]
    omega

/-- The indices of the complete blocks. -/
def IsCompleteAt (g : Geometry) (p : Position) (i : Nat) : Prop :=
  g.IsComplete p (i / g.laneLength) (i % g.laneLength)

theorem isCompleteAt_mul_add {lane place : Nat} (h : place < g.laneLength) :
    g.IsCompleteAt p (lane * g.laneLength + place) ↔ g.IsComplete p lane place := by
  unfold IsCompleteAt
  rw [lane_mul_add_div _ h, lane_mul_add_mod _ h]

/-- In the slice at work a position sees of the others those before it in its own lane. -/
theorem isCompleteAt_absolute {q : Position} (hp : p.IsWithin g) (hq : q.IsWithin g)
    (hs : q.slice = p.slice) :
    g.IsCompleteAt p (q.absolute g) ↔ q.lane = p.lane ∧ q.index < p.index := by
  rw [Position.absolute_eq, isCompleteAt_mul_add (Position.place_lt hq),
    isComplete_iff hp.2.2]
  have hstep : (p.slice + 1) * g.segmentLength = p.slice * g.segmentLength + g.segmentLength :=
    Nat.succ_mul _ _
  have hi := hq.2.2
  unfold Position.place
  rw [hs]
  omega

/-! ## The block before -/

theorem previous_eq (hp : p.IsWithin g) :
    p.previous g = p.lane * g.laneLength +
      (if p.place g = 0 then g.laneLength - 1 else p.place g - 1) := by
  have hlt := Position.place_lt hp
  unfold Position.previous
  dsimp only
  rw [Position.absolute_mod hp, Position.absolute_eq]
  split_ifs <;> omega

/-- In its lane, cyclically, the block a position chains from is the one before. -/
theorem previous_eq_mod (hp : p.IsWithin g) :
    p.previous g =
      p.lane * g.laneLength + (p.place g + g.laneLength - 1) % g.laneLength := by
  have hlt := Position.place_lt hp
  rw [previous_eq hp]
  congr 1
  split_ifs with h
  · rw [h, Nat.zero_add, Nat.mod_eq_of_lt (by omega)]
  · have hsub : p.place g + g.laneLength - 1 = p.place g - 1 + g.laneLength := by omega
    rw [hsub, Nat.add_mod_right, Nat.mod_eq_of_lt (by omega)]

theorem previous_div (hp : p.IsWithin g) : p.previous g / g.laneLength = p.lane := by
  rw [previous_eq_mod hp]
  exact lane_mul_add_div _ (Nat.mod_lt _ (Nat.zero_lt_of_lt (Position.place_lt hp)))

theorem previous_lt (hp : p.IsWithin g) : p.previous g < g.blockCount := by
  have hlt := Position.place_lt hp
  rw [previous_eq hp]
  exact lane_mul_add_lt hp.2.1 (by split_ifs <;> omega)

theorem isComplete_previous (hp : p.IsLegal g) : g.IsCompleteAt p (p.previous g) := by
  have hlt := Position.place_lt hp.isWithin
  rw [previous_eq hp.isWithin, isCompleteAt_mul_add (by split_ifs <;> omega),
    isComplete_iff hp.2.2.1]
  obtain ⟨hs, -, hi, h2⟩ := hp
  unfold Position.place at *
  split_ifs with h
  · -- the first block of a lane chains from the last one, which the pass before has left
    have h0 : p.slice = 0 := by
      rcases Nat.eq_zero_or_pos p.slice with h0 | h0
      · exact h0
      · have := Nat.mul_le_mul_right g.segmentLength h0
        omega
    have hpass : p.pass ≠ 0 := fun hpass => by
      have := h2 hpass h0
      omega
    refine .inr (.inr ⟨hpass, ?_⟩)
    rw [h0, laneLength_eq]
    omega
  · omega

end MemoryHard.Geometry
