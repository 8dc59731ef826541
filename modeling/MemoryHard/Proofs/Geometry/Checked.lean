import MemoryHard.Geometry.Checked
import MemoryHard.Proofs.Geometry.Window

/-!
# MemoryHard.Proofs.Geometry.Checked — index computations stay within their words

Of checked parameters all sizes fit into 64 bits, and at a position where a block is derived no
step of the way to its reference goes below zero, overflows or divides by zero, whatever word the
reference is drawn from.

* `Word.add?_eq_some` and the others — when a single step has a value;
* `Params.blockCount?_eq_some`, `wordGeometry_eq_some` — sizes need a lane and nothing else;
* `windowSize?_eq_some`, `pick?_eq_some` — the window, which has the position to thank for not
  being empty; `pick?_eq_none` for seeds;
* `reference?_eq_some` — the reference.
-/

namespace MemoryHard

/-! ## Steps -/

namespace Word

variable {m n : Nat}

theorem add?_eq_some (h : m + n < UInt64.size) : add? m n = some (m + n) := if_pos h

theorem sub?_eq_some (h : n ≤ m) : sub? m n = some (m - n) := if_pos h

theorem mul?_eq_some (h : m * n < UInt64.size) : mul? m n = some (m * n) := if_pos h

theorem div?_eq_some (h : n ≠ 0) : div? m n = some (m / n) := if_neg h

theorem mod?_eq_some (h : n ≠ 0) : mod? m n = some (m % n) := if_neg h

end Word

open Word

/-! ## Sizes -/

namespace Params

variable {p : Params} (h : 0 < p.lanes.toNat)
include h

theorem segmentLength?_eq_some : p.segmentLength? = some p.segmentLength := by
  have hfit : slices * p.lanes.toNat < UInt64.size := by
    have hlanes := p.lanes.toNat_lt
    simp only [slices, UInt64.size]
    omega
  have hpos : slices * p.lanes.toNat ≠ 0 := by
    simp only [slices]
    omega
  unfold segmentLength?
  rw [mul?_eq_some hfit]
  exact div?_eq_some hpos

theorem laneLength_le : p.laneLength ≤ p.blockCount := Nat.le_mul_of_pos_right _ h

omit h in
theorem blockCount_lt_size (p : Params) : p.blockCount < UInt32.size :=
  Nat.lt_of_le_of_lt p.blockCount_le p.memoryCost.toNat_lt

theorem laneLength?_eq_some : p.laneLength? = some p.laneLength := by
  have hfit : p.segmentLength * slices < UInt64.size := by
    have hle : p.segmentLength * slices ≤ p.blockCount := laneLength_le h
    exact Nat.lt_trans (Nat.lt_of_le_of_lt hle p.blockCount_lt_size) (by decide)
  unfold laneLength?
  rw [segmentLength?_eq_some h]
  exact mul?_eq_some hfit

theorem blockCount?_eq_some : p.blockCount? = some p.blockCount := by
  have hfit : p.laneLength * p.lanes.toNat < UInt64.size :=
    Nat.lt_trans p.blockCount_lt_size (by decide)
  unfold blockCount?
  rw [laneLength?_eq_some h]
  exact mul?_eq_some hfit

theorem wordGeometry_eq_some : p.wordGeometry = some p.geometry := by
  unfold wordGeometry
  rw [laneLength?_eq_some h, segmentLength?_eq_some h]
  rfl

end Params

/-! ## Positions -/

namespace Geometry

variable {g : Geometry} {p : Position} {i : Nat}

section
variable (hg : g.IsRegular)
include hg

theorem laneLength_lt : g.laneLength < UInt32.size :=
  Nat.lt_of_le_of_lt (Nat.le_mul_of_pos_left _ hg.lanes_pos) hg.blockCount_lt

theorem locate?_eq_some (i : Nat) : g.locate? i = some (g.locate i) := by
  have hlane := Nat.ne_of_gt hg.laneLength_pos
  have hsegment := Nat.ne_of_gt hg.segmentLength_pos
  unfold locate?
  rw [div?_eq_some hlane, mod?_eq_some hlane]
  simp only [Option.bind_eq_bind, Option.bind_some, div?_eq_some hsegment, mod?_eq_some hsegment]
  rfl

theorem isSeed?_eq_some (i : Nat) : g.isSeed? i = some (g.isSeed i) := by
  unfold isSeed?
  rw [mod?_eq_some (Nat.ne_of_gt hg.laneLength_pos)]
  rfl

end

/-! ## References -/

/-- The last step to the size of a window, from the number of blocks that are completed. -/
theorem fromCompleted_eq_some {completed : Nat} {own : Bool}
    (hfit : completed + p.index < UInt64.size)
    (hpos : 0 < if own = true then completed + p.index - 1
      else if p.index = 0 then completed - 1 else completed) :
    (if own = true then (add? completed p.index).bind (sub? · 1)
      else if p.index = 0 then sub? completed 1 else some completed) =
      some (if own = true then completed + p.index - 1
        else if p.index = 0 then completed - 1 else completed) := by
  cases own with
  | true =>
    simp only [if_true] at hpos ⊢
    rw [add?_eq_some hfit]
    exact sub?_eq_some (by omega)
  | false =>
    simp only [Bool.false_eq_true, if_false] at hpos ⊢
    split_ifs at hpos ⊢
    · exact sub?_eq_some (by omega)
    · rfl

section
variable (hp : p.IsLegal g)
include hp

theorem slice_mul_lt : p.slice * g.segmentLength < g.laneLength := by
  have hplace := Position.place_lt hp.isWithin
  unfold Position.place at hplace
  omega

variable (hg : g.IsRegular)
include hg

/-- In the first segment of a lane it is only because no seed is derived that the size of the
window does not fall below zero. -/
theorem windowSize?_eq_some (own : Bool) : g.windowSize? p own = some (g.windowSize p own) := by
  have hlane := laneLength_lt hg
  have hpos := windowSize_pos hg.two_le_segmentLength hp own
  have hslice := slice_mul_lt hp
  have hindex := hp.2.2.1
  have hsegment : g.segmentLength ≤ g.laneLength := by
    rw [laneLength_eq]
    omega
  have hsize : UInt32.size + UInt32.size < UInt64.size := by decide
  unfold windowSize? windowSize at *
  dsimp only at hpos ⊢
  by_cases hfirst : p.pass = 0 ∧ p.slice = 0
  · rw [if_pos hfirst] at hpos ⊢
    rw [if_pos hfirst]
    exact sub?_eq_some (by omega)
  · rw [if_neg hfirst] at hpos ⊢
    rw [if_neg hfirst]
    by_cases hpass : p.pass ≠ 0
    · rw [if_pos hpass] at hpos ⊢
      rw [if_pos hpass, sub?_eq_some hsegment]
      exact fromCompleted_eq_some (by omega) hpos
    · rw [if_neg hpass] at hpos ⊢
      rw [if_neg hpass, mul?_eq_some (by omega)]
      exact fromCompleted_eq_some (by omega) hpos

theorem windowStart?_eq_some : g.windowStart? p = some (g.windowStart p) := by
  have hlane := laneLength_lt hg
  have hslice := hp.1
  have hnext : (p.slice + 1) * g.segmentLength ≤ g.laneLength := Nat.mul_le_mul_right _ hp.1
  have hsize : UInt32.size < UInt64.size := by decide
  unfold windowStart? windowStart
  split_ifs
  · rw [add?_eq_some (by simp only [slices, UInt64.size] at *; omega)]
    exact mul?_eq_some (by omega)
  · rfl

theorem pick?_eq_some {low : Nat} (hlow : low < UInt32.size) (own : Bool) :
    g.pick? p low own = some (g.pick p low own) := by
  have hlane := laneLength_lt hg
  have hstart := windowStart_le hp
  have hlt := windowSize_lt hp own
  have hpos := windowSize_pos hg.two_le_segmentLength hp own
  have hage := age_lt hpos hlow
  have hsize : UInt32.size + UInt32.size < UInt64.size := by decide
  -- all factors are below `2 ^ 32`
  have hsquare : low * low < UInt64.size := Nat.mul_lt_mul'' hlow hlow
  have hhigh : low * low / UInt32.size < UInt32.size := Nat.div_lt_of_lt_mul hsquare
  have hnewer : g.windowSize p own * (low * low / UInt32.size) < UInt64.size :=
    Nat.mul_lt_mul'' (Nat.lt_trans hlt hlane) hhigh
  have hplace := Nat.sub_le (g.windowSize p own - 1)
    (g.windowSize p own * (low * low / UInt32.size) / UInt32.size)
  unfold age at hage
  unfold pick? pick age
  rw [windowSize?_eq_some hp hg, mul?_eq_some hsquare]
  simp only [Option.bind_eq_bind, Option.bind_some]
  rw [mul?_eq_some hnewer, sub?_eq_some (show 1 ≤ g.windowSize p own from hpos)]
  simp only [Option.bind_some]
  rw [sub?_eq_some (by omega), windowStart?_eq_some hp hg]
  simp only [Option.bind_some]
  rw [add?_eq_some (by omega)]
  exact mod?_eq_some (Nat.ne_of_gt hg.laneLength_pos)

omit hp hg in
/-- At a seed the computation falls below zero, so it does take a position where a block is
derived. -/
theorem pick?_eq_none (hpass : p.pass = 0) (hslice : p.slice = 0) (hseed : p.index < 2)
    (low : Nat) (own : Bool) : g.pick? p low own = none := by
  have hsize : g.windowSize? p own = sub? p.index 1 := if_pos ⟨hpass, hslice⟩
  unfold pick?
  rw [hsize]
  obtain h0 | h1 : p.index = 0 ∨ p.index = 1 := by omega
  · -- the size of the window falls below zero
    rw [h0]
    rfl
  · -- the window is empty, and its newest block has no number
    rw [h1]
    cases mul? low low with
    | none => rfl
    | some square => simp [sub?, mul?, fit?]

omit hp in
theorem referenceLane?_eq_some (word : UInt64) :
    g.referenceLane? p word = some (g.referenceLane p word) := by
  unfold referenceLane? referenceLane
  split_ifs
  · rfl
  · exact mod?_eq_some (Nat.ne_of_gt hg.lanes_pos)

/-- Whatever the word, the way to the reference stays within 64 bits. -/
theorem reference?_eq_some (word : UInt64) : g.reference? p word = some (g.reference p word) := by
  have hlow : word.toNat % UInt32.size < UInt32.size := Nat.mod_lt _ (by decide)
  have hlt := reference_lt hg hp word
  have hblocks := hg.blockCount_lt
  have hsize : UInt32.size < UInt64.size := by decide
  unfold reference at hlt
  dsimp only at hlt
  unfold reference? reference
  rw [referenceLane?_eq_some hg]
  simp only [Option.bind_eq_bind, Option.bind_some]
  rw [pick?_eq_some hp hg hlow, mul?_eq_some (by omega)]
  exact add?_eq_some (by omega)

end

end Geometry

end MemoryHard
