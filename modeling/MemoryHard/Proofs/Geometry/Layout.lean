import MemoryHard.Geometry.Completed
import MemoryHard.Params.Validity
import Mathlib.Tactic.SplitIfs

/-!
# MemoryHard.Proofs.Geometry.Layout — positions and indices

The index of a block is its lane times the length of a lane, plus its place in the lane, and the
place is a slice times the length of a segment, plus the place in the segment.

* `Geometry.IsRegular` — what holds of the shape that checked parameters ask for
  (`Params.isRegular_geometry`);
* `Position.IsWithin`, `Position.place`, `absolute_eq` — an index put together, with
  `absolute_div`, `absolute_mod`, `place_div`, `place_mod` for the way back;
* `locate_absolute`, `isLegal_locate` — every index that is no seed is the position of a block
  of the first pass.
-/

namespace MemoryHard

/-! ## Checked parameters -/

/-- What checked parameters ask for: a lane, two blocks for each segment, a pass, and indices
that fit into 32 bits. -/
structure Geometry.IsRegular (g : Geometry) : Prop where
  lanes_pos : 0 < g.lanes
  two_le_segmentLength : 2 ≤ g.segmentLength
  passes_pos : 0 < g.passes
  blockCount_lt : g.blockCount < UInt32.size

namespace Params

theorem fault?_eq_none_iff {p : Params} :
    p.fault? = none ↔ 0 < p.lanes.toNat ∧ p.lanes.toNat ≤ maxLanes ∧
      p.memoryFloor ≤ p.memoryCost.toNat ∧ 0 < p.passes.toNat ∧ 4 ≤ p.tagLength.toNat ∧
      minNodeWidth ≤ p.nodeWidth ∧ p.nodeWidth ≤ maxNodeWidth ∧ 0 < p.searchLength.toNat ∧
      p.difficultyBits.toNat ≤ digestBits := by
  unfold fault?
  constructor
  · intro h
    split_ifs at h
    omega
  · rintro ⟨h1, h2, h3, h4, h5, h6, h7, h8, h9⟩
    rw [if_neg (by omega), if_neg (by omega), if_neg (by omega), if_neg (by omega),
      if_neg (by omega), if_neg (by omega), if_neg (by omega), if_neg (by omega)]

theorem proofFault?_eq_none_iff {p : Params} :
    p.proofFault? = none ↔ p.fault? = none ∧ p.passes.toNat = 1 := by
  unfold proofFault?
  cases h : p.fault? with
  | none => by_cases h1 : p.passes.toNat = 1 <;> simp [h1]
  | some fault => simp

theorem validate_eq_ok_iff {p : Params} : p.validate = .ok () ↔ p.fault? = none := by
  unfold validate
  cases p.fault? <;> simp

theorem validateForProof_eq_ok_iff {p : Params} :
    p.validateForProof = .ok () ↔ p.proofFault? = none := by
  unfold validateForProof
  cases p.proofFault? <;> simp

theorem geometry_blockCount (p : Params) : p.geometry.blockCount = p.blockCount := by
  show p.lanes.toNat * (slices * p.segmentLength) = p.segmentLength * slices * p.lanes.toNat
  rw [Nat.mul_comm p.lanes.toNat, Nat.mul_comm slices]

theorem blockCount_le (p : Params) : p.blockCount ≤ p.memoryCost.toNat := by
  unfold blockCount laneLength
  rw [Nat.mul_assoc]
  exact Nat.div_mul_le_self _ _

theorem two_le_segmentLength {p : Params} (h : p.fault? = none) : 2 ≤ p.segmentLength := by
  obtain ⟨h1, -, h3, -⟩ := fault?_eq_none_iff.1 h
  have hpos : 0 < slices * p.lanes.toNat := Nat.mul_pos (by decide) h1
  unfold segmentLength
  rw [Nat.le_div_iff_mul_le hpos, ← Nat.mul_assoc]
  exact h3

theorem isRegular_geometry {p : Params} (h : p.fault? = none) : p.geometry.IsRegular := by
  obtain ⟨h1, -, -, h4, -⟩ := fault?_eq_none_iff.1 h
  refine ⟨h1, two_le_segmentLength h, h4, ?_⟩
  rw [geometry_blockCount]
  exact Nat.lt_of_le_of_lt p.blockCount_le p.memoryCost.toNat_lt

end Params

/-! ## Indices -/

namespace Geometry

variable {g : Geometry}

theorem IsRegular.segmentLength_pos (hg : g.IsRegular) : 0 < g.segmentLength :=
  Nat.lt_of_lt_of_le (by decide) hg.two_le_segmentLength

theorem laneLength_eq (g : Geometry) : g.laneLength = 4 * g.segmentLength := rfl

theorem IsRegular.laneLength_pos (hg : g.IsRegular) : 0 < g.laneLength := by
  have := hg.segmentLength_pos
  rw [laneLength_eq]
  omega

theorem IsRegular.blockCount_pos (hg : g.IsRegular) : 0 < g.blockCount :=
  Nat.mul_pos hg.lanes_pos hg.laneLength_pos

theorem lane_mul_add_div {place : Nat} (lane : Nat) (h : place < g.laneLength) :
    (lane * g.laneLength + place) / g.laneLength = lane := by
  rw [Nat.add_comm, Nat.add_mul_div_right _ _ (Nat.zero_lt_of_lt h), Nat.div_eq_of_lt h,
    Nat.zero_add]

theorem lane_mul_add_mod {place : Nat} (lane : Nat) (h : place < g.laneLength) :
    (lane * g.laneLength + place) % g.laneLength = place := by
  rw [Nat.mul_add_mod_self_right, Nat.mod_eq_of_lt h]

theorem lane_mul_add_lt {lane place : Nat} (hl : lane < g.lanes) (h : place < g.laneLength) :
    lane * g.laneLength + place < g.blockCount := by
  have h1 : (lane + 1) * g.laneLength ≤ g.lanes * g.laneLength := Nat.mul_le_mul_right _ hl
  rw [Nat.succ_mul] at h1
  unfold blockCount
  omega

theorem div_lt_lanes {i : Nat} (h : i < g.blockCount) : i / g.laneLength < g.lanes :=
  Nat.div_lt_of_lt_mul (by rw [Nat.mul_comm]; exact h)

theorem div_mul_add_mod (g : Geometry) (i : Nat) :
    i / g.laneLength * g.laneLength + i % g.laneLength = i := by
  rw [Nat.mul_comm]
  exact Nat.div_add_mod _ _

end Geometry

/-! ## Positions -/

namespace Position

variable {g : Geometry} {p q : Position}

/-- A position inside the shape, be it one at which a block is derived or one of a seed. -/
def IsWithin (g : Geometry) (p : Position) : Prop :=
  p.slice < slices ∧ p.lane < g.lanes ∧ p.index < g.segmentLength

theorem IsLegal.isWithin (h : p.IsLegal g) : p.IsWithin g := ⟨h.1, h.2.1, h.2.2.1⟩

/-- The place of a position in its lane. -/
def place (g : Geometry) (p : Position) : Nat := p.slice * g.segmentLength + p.index

theorem absolute_eq (g : Geometry) (p : Position) :
    p.absolute g = p.lane * g.laneLength + p.place g := by
  simp only [absolute, Geometry.segmentStart, place, Nat.add_assoc]

theorem place_lt (h : p.IsWithin g) : p.place g < g.laneLength := by
  obtain ⟨hs, -, hi⟩ := h
  have h1 : (p.slice + 1) * g.segmentLength ≤ slices * g.segmentLength := Nat.mul_le_mul_right _ hs
  rw [Nat.succ_mul] at h1
  unfold place Geometry.laneLength
  omega

theorem place_div (h : p.IsWithin g) : p.place g / g.segmentLength = p.slice := by
  have hi := h.2.2
  unfold place
  rw [Nat.add_comm, Nat.add_mul_div_right _ _ (by omega), Nat.div_eq_of_lt hi, Nat.zero_add]

theorem place_mod (h : p.IsWithin g) : p.place g % g.segmentLength = p.index := by
  unfold place
  rw [Nat.mul_add_mod_self_right, Nat.mod_eq_of_lt h.2.2]

theorem absolute_div (h : p.IsWithin g) : p.absolute g / g.laneLength = p.lane := by
  rw [absolute_eq, Geometry.lane_mul_add_div _ (place_lt h)]

theorem absolute_mod (h : p.IsWithin g) : p.absolute g % g.laneLength = p.place g := by
  rw [absolute_eq, Geometry.lane_mul_add_mod _ (place_lt h)]

theorem absolute_lt (h : p.IsWithin g) : p.absolute g < g.blockCount := by
  rw [absolute_eq]
  exact Geometry.lane_mul_add_lt h.2.1 (place_lt h)

/-- In one pass a block is filled at one position only. -/
theorem eq_of_absolute_eq (hp : p.IsWithin g) (hq : q.IsWithin g) (hpass : p.pass = q.pass)
    (h : p.absolute g = q.absolute g) : p = q := by
  have hlane : p.lane = q.lane := by rw [← absolute_div hp, h, absolute_div hq]
  have hplace : p.place g = q.place g := by rw [← absolute_mod hp, h, absolute_mod hq]
  have hslice : p.slice = q.slice := by rw [← place_div hp, hplace, place_div hq]
  have hindex : p.index = q.index := by rw [← place_mod hp, hplace, place_mod hq]
  cases p
  cases q
  simp_all

theorem locate_absolute (h : p.IsWithin g) (h0 : p.pass = 0) : g.locate (p.absolute g) = p := by
  unfold Geometry.locate
  rw [absolute_div h, absolute_mod h, place_div h, place_mod h, ← h0]

end Position

namespace Geometry

variable {g : Geometry}

theorem place_locate (g : Geometry) (i : Nat) : (g.locate i).place g = i % g.laneLength := by
  show i % g.laneLength / g.segmentLength * g.segmentLength + i % g.laneLength % g.segmentLength = _
  rw [Nat.mul_comm]
  exact Nat.div_add_mod _ _

theorem absolute_locate (g : Geometry) (i : Nat) : (g.locate i).absolute g = i := by
  rw [Position.absolute_eq, place_locate]
  exact g.div_mul_add_mod i

theorem isWithin_locate (hg : g.IsRegular) {i : Nat} (hi : i < g.blockCount) :
    (g.locate i).IsWithin g := by
  refine ⟨?_, div_lt_lanes hi, Nat.mod_lt _ hg.segmentLength_pos⟩
  apply Nat.div_lt_of_lt_mul
  rw [Nat.mul_comm]
  exact Nat.mod_lt _ hg.laneLength_pos

/-- A block is derived in the first pass wherever there is no seed. -/
theorem isLegal_locate (hg : g.IsRegular) {i : Nat} (hi : i < g.blockCount)
    (hs : g.isSeed i = false) : (g.locate i).IsLegal g := by
  obtain ⟨h1, h2, h3⟩ := isWithin_locate hg hi
  refine ⟨h1, h2, h3, ?_⟩
  intro _ h0
  have hplace : (g.locate i).place g = i % g.laneLength := place_locate g i
  have hseed : ¬i % g.laneLength < 2 := by simpa [isSeed] using hs
  unfold Position.place at hplace
  rw [h0, Nat.zero_mul, Nat.zero_add] at hplace
  omega

/-- No seed is derived in the first pass. -/
theorem isSeed_absolute (hg : g.IsRegular) {p : Position} (h : p.IsLegal g) (h0 : p.pass = 0) :
    g.isSeed (p.absolute g) = false := by
  have h2 : 2 ≤ p.place g := by
    unfold Position.place
    rcases Nat.eq_zero_or_pos p.slice with hs | hs
    · have := h.2.2.2 h0 hs
      omega
    · have := Nat.mul_le_mul hs hg.two_le_segmentLength
      omega
  simp only [isSeed, Position.absolute_mod h.isWithin, decide_eq_false_iff_not]
  omega

end Geometry

end MemoryHard
