import MemoryHard.Memory
import MemoryHard.Proofs.Geometry.Layout
import Mathlib.Tactic.ByContra

/-!
# MemoryHard.Proofs.Memory.Contents — what a memory holds

Two memories of one shape and one job are the same if every block reads the same.

* `ext_read` — equality from what is read;
* `read_writeFrom`, `read_writeFrom_of_not_mem` — what is read after a run of blocks is written;
* `read_writeSeeds` — what is read after the seeds are written.
-/

namespace MemoryHard.Memory

variable {m m' : Memory}

theorem size_eq_blockCount (m : Memory) : m.size = m.geometry.blockCount := m.size_eq

theorem ext_blocks (hg : m.geometry = m'.geometry) (hj : m.job = m'.job)
    (h : m.blocks = m'.blocks) : m = m' := by
  cases m
  cases m'
  simp_all

theorem read_eq_getElem {i : Nat} (h : i < m.blocks.size) : m.read i = m.blocks[i] := by
  simp [read, h]

theorem get?_eq_some_iff {i : Nat} {b : Block} :
    m.get? i = some b ↔ i < m.geometry.blockCount ∧ m.read i = b := by
  constructor
  · intro h
    have hi : i < m.size := by
      unfold get? at h
      exact (Array.getElem?_eq_some_iff.1 h).1
    rw [get?_eq_some_read hi] at h
    exact ⟨m.size_eq_blockCount ▸ hi, Option.some.inj h⟩
  · rintro ⟨hi, rfl⟩
    exact get?_eq_some_read (m.size_eq_blockCount ▸ hi)

theorem blocks_eq_of_read (hg : m.geometry = m'.geometry)
    (h : ∀ i < m.geometry.blockCount, m.read i = m'.read i) : m.blocks = m'.blocks := by
  refine Array.ext (by rw [m.size_eq, m'.size_eq, hg]) ?_
  intro i h1 h2
  rw [← read_eq_getElem h1, ← read_eq_getElem h2]
  exact h i (m.size_eq ▸ h1)

theorem ext_read (hg : m.geometry = m'.geometry) (hj : m.job = m'.job)
    (h : ∀ i < m.geometry.blockCount, m.read i = m'.read i) : m = m' :=
  ext_blocks hg hj (blocks_eq_of_read hg h)

/-! ## Writes -/

theorem read_write_self {i : Nat} (h : i < m.geometry.blockCount) (b : Block) :
    (m.write i b).read i = b := by
  rw [read_write, if_pos ⟨rfl, m.size_eq_blockCount ▸ h⟩]

theorem read_write_of_ne {i j : Nat} (h : i ≠ j) (b : Block) : (m.write i b).read j = m.read j := by
  rw [read_write, if_neg fun hij => h hij.1]

theorem read_writeFrom_of_not_mem {start j : Nat} {bs : List Block}
    (h : j < start ∨ start + bs.length ≤ j) : (m.writeFrom start bs).read j = m.read j := by
  induction bs generalizing m start with
  | nil => rfl
  | cons b bs ih =>
    rw [List.length_cons] at h
    rw [writeFrom, ih (by omega), read_write_of_ne (by omega)]

theorem read_writeFrom {start k : Nat} {bs : List Block} (hk : k < bs.length)
    (h : start + k < m.geometry.blockCount) : (m.writeFrom start bs).read (start + k) = bs[k] := by
  induction bs generalizing m start k with
  | nil => simp at hk
  | cons b bs ih =>
    cases k with
    | zero =>
      rw [writeFrom, read_writeFrom_of_not_mem (by omega)]
      exact read_write_self h b
    | succ k =>
      have hstart : start + (k + 1) = start + 1 + k := by omega
      rw [List.length_cons] at hk
      rw [writeFrom, hstart, ih (by omega) (by rw [geometry_write]; omega), List.getElem_cons_succ]

theorem binding_congr (hj : m.job = m'.job) (i : Nat) : m.binding i = m'.binding i := by
  unfold binding
  rw [hj]

/-! ## Seeds -/

section
variable [HashSuite]

/-- The memory after the seeds of some lanes are written. -/
def writeSeedsOf (m : Memory) (prehash : Bytes) (lanes : List Nat) : Memory :=
  lanes.foldl
    (fun m lane =>
      m.writeFrom (lane * m.geometry.laneLength)
        [seedBlock prehash lane 0, seedBlock prehash lane 1])
    m

theorem writeSeedsOf_cons (m : Memory) (h0 : Bytes) (lane : Nat) (lanes : List Nat) :
    m.writeSeedsOf h0 (lane :: lanes) =
      (m.writeFrom (lane * m.geometry.laneLength)
        [seedBlock h0 lane 0, seedBlock h0 lane 1]).writeSeedsOf h0 lanes := rfl

theorem geometry_writeSeedsOf (m : Memory) (h0 : Bytes) (lanes : List Nat) :
    (m.writeSeedsOf h0 lanes).geometry = m.geometry := by
  induction lanes generalizing m with
  | nil => rfl
  | cons lane lanes ih => rw [writeSeedsOf_cons, ih, geometry_writeFrom]

theorem job_writeSeedsOf (m : Memory) (h0 : Bytes) (lanes : List Nat) :
    (m.writeSeedsOf h0 lanes).job = m.job := by
  induction lanes generalizing m with
  | nil => rfl
  | cons lane lanes ih => rw [writeSeedsOf_cons, ih, job_writeFrom]

@[simp] theorem geometry_writeSeeds (m : Memory) (h0 : Bytes) :
    (m.writeSeeds h0).geometry = m.geometry :=
  geometry_writeSeedsOf m h0 _

@[simp] theorem job_writeSeeds (m : Memory) (h0 : Bytes) : (m.writeSeeds h0).job = m.job :=
  job_writeSeedsOf m h0 _

/-- The two seeds of a lane, and nothing else. -/
theorem read_writeSeed (hg : m.geometry.IsRegular) (h0 : Bytes) (lane : Nat) {i : Nat}
    (hi : i < m.geometry.blockCount) :
    (m.writeFrom (lane * m.geometry.laneLength)
        [seedBlock h0 lane 0, seedBlock h0 lane 1]).read i =
      if m.geometry.isSeed i = true ∧ i / m.geometry.laneLength = lane then
        seedBlock h0 (i / m.geometry.laneLength) (i % m.geometry.laneLength)
      else m.read i := by
  have hS := hg.two_le_segmentLength
  have hL : 2 ≤ m.geometry.laneLength := by
    rw [Geometry.laneLength_eq]
    omega
  have hmod := m.geometry.div_mul_add_mod i
  simp only [Geometry.isSeed, decide_eq_true_eq]
  by_cases h : i % m.geometry.laneLength < 2 ∧ i / m.geometry.laneLength = lane
  · obtain ⟨h2, rfl⟩ := h
    have hlt : i / m.geometry.laneLength * m.geometry.laneLength + i % m.geometry.laneLength <
        m.geometry.blockCount := by
      rw [hmod]
      exact hi
    have hread := read_writeFrom (show i % m.geometry.laneLength <
      [seedBlock h0 (i / m.geometry.laneLength) 0,
        seedBlock h0 (i / m.geometry.laneLength) 1].length from h2) hlt
    rw [hmod] at hread
    rw [if_pos ⟨h2, rfl⟩, hread]
    rcases (by omega : i % m.geometry.laneLength = 0 ∨ i % m.geometry.laneLength = 1) with h | h <;>
      simp [h]
  · rw [if_neg h]
    refine read_writeFrom_of_not_mem ?_
    by_contra hmem
    -- what is written stands in the first two places of the lane
    have hplace : i - lane * m.geometry.laneLength < m.geometry.laneLength := by
      simp only [List.length_cons, List.length_nil] at hmem
      omega
    have heq : i = lane * m.geometry.laneLength + (i - lane * m.geometry.laneLength) := by omega
    refine h ⟨?_, ?_⟩
    · rw [heq, Geometry.lane_mul_add_mod _ hplace]
      simp only [List.length_cons, List.length_nil] at hmem
      omega
    · rw [heq, Geometry.lane_mul_add_div _ hplace]

theorem read_writeSeedsOf (hg : m.geometry.IsRegular) (h0 : Bytes) (lanes : List Nat) {i : Nat}
    (hi : i < m.geometry.blockCount) :
    (m.writeSeedsOf h0 lanes).read i =
      if m.geometry.isSeed i = true ∧ i / m.geometry.laneLength ∈ lanes then
        seedBlock h0 (i / m.geometry.laneLength) (i % m.geometry.laneLength)
      else m.read i := by
  induction lanes generalizing m with
  | nil => simp [writeSeedsOf]
  | cons lane lanes ih =>
    have hgeo := geometry_writeFrom m (lane * m.geometry.laneLength)
      [seedBlock h0 lane 0, seedBlock h0 lane 1]
    rw [writeSeedsOf_cons, ih (hgeo ▸ hg) (hgeo ▸ hi), hgeo, read_writeSeed hg h0 lane hi]
    simp only [List.mem_cons]
    split_ifs <;> simp_all

/-- The seeds of all lanes are written, and nothing else. -/
theorem read_writeSeeds (hg : m.geometry.IsRegular) (h0 : Bytes) {i : Nat}
    (hi : i < m.geometry.blockCount) :
    (m.writeSeeds h0).read i =
      if m.geometry.isSeed i then
        seedBlock h0 (i / m.geometry.laneLength) (i % m.geometry.laneLength)
      else m.read i := by
  have hmem : i / m.geometry.laneLength ∈ List.range m.geometry.lanes :=
    List.mem_range.2 (Geometry.div_lt_lanes hi)
  rw [show m.writeSeeds h0 = m.writeSeedsOf h0 (List.range m.geometry.lanes) from rfl,
    read_writeSeedsOf hg h0 _ hi]
  simp only [hmem, and_true]

end

end MemoryHard.Memory
