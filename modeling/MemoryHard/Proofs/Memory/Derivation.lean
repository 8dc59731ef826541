import MemoryHard.Digest.Standard
import MemoryHard.Memory.Derived
import MemoryHard.Proofs.Memory.FirstPass

/-!
# MemoryHard.Proofs.Memory.Derivation — a single pass, block by block

In a single pass a block is derived from blocks at earlier places of their lanes, and none of them
is overwritten later.  So every block of the filled memory is the one that belongs in its place,
and the memory is the only one of which this holds.

* `derivedAt_congr`, `IsDerived.read_eq` — the block that belongs at an index depends on earlier
  places only, so that the equations have one solution;
* `isDerivedAt_of_sliceStep` — what a slice of the first pass adds;
* `isDerived_of_run` — a fill that passes leaves blocks that belong in their places;
* `run_isDerived_iff` — the equations hold of the filled memory and of no other.
-/

namespace MemoryHard

namespace Geometry

variable {g : Geometry} {i : Nat}

theorem previous_locate (hg : g.IsRegular) (hi : i < g.blockCount) (hs : g.isSeed i = false) :
    (g.locate i).previous g = i - 1 := by
  have hseed : ¬i % g.laneLength < 2 := by simpa [isSeed] using hs
  have hmod := g.div_mul_add_mod i
  rw [previous_eq (isWithin_locate hg hi), place_locate, if_neg (by omega)]
  show i / g.laneLength * g.laneLength + _ = _
  omega

end Geometry

namespace Memory

variable [HashSuite] {m m' : Memory} {job : Option JobWords} {h0 : Bytes} {i : Nat}

/-! ## The block that belongs at an index -/

theorem derivedAt_of_isSeed (hs : m.geometry.isSeed i = true) :
    m.derivedAt job h0 i =
      seedBlock h0 (i / m.geometry.laneLength) (i % m.geometry.laneLength) := by
  unfold derivedAt
  rw [if_pos hs]

theorem derivedAt_of_not_isSeed (hs : m.geometry.isSeed i = false) :
    m.derivedAt job h0 i =
      Block.derive (m.read (i - 1))
        (m.read (m.geometry.reference (m.geometry.locate i) (m.read (i - 1)).firstWord)) none
        (job.map fun words => ⟨words, UInt64.ofNat i⟩) := by
  unfold derivedAt
  simp [hs]

/-- What is derived at a position of the first pass is the block that belongs there. -/
theorem derivedAt_eq_blockFor (hg : m.geometry.IsRegular) (hi : i < m.geometry.blockCount)
    (hs : m.geometry.isSeed i = false) :
    m.derivedAt m.job h0 i = m.blockFor (m.geometry.locate i) none := by
  rw [derivedAt_of_not_isSeed hs]
  unfold blockFor binding
  rw [Geometry.previous_locate hg hi hs, Geometry.absolute_locate]

theorem derivedAt_congr (hg : m.geometry.IsRegular) (hgeo : m'.geometry = m.geometry)
    (hi : i < m.geometry.blockCount)
    (h : ∀ j < m.geometry.blockCount, j % m.geometry.laneLength < i % m.geometry.laneLength →
      m'.read j = m.read j) : m'.derivedAt job h0 i = m.derivedAt job h0 i := by
  cases hs : m.geometry.isSeed i with
  | true => rw [derivedAt_of_isSeed hs, derivedAt_of_isSeed (hgeo ▸ hs), hgeo]
  | false =>
    have hlegal := Geometry.isLegal_locate hg hi hs
    -- both antecedents are complete, so they stand at earlier places
    have hread {j : Nat} (hj : j < m.geometry.blockCount)
        (hc : m.geometry.IsCompleteAt (m.geometry.locate i) j) : m'.read j = m.read j := by
      refine h j hj ?_
      have hlt := Geometry.mod_lt_of_isCompleteAt hlegal rfl hc
      rwa [Geometry.place_locate] at hlt
    have hprev := hread (Geometry.previous_lt hlegal.isWithin)
      (Geometry.isComplete_previous hlegal)
    rw [Geometry.previous_locate hg hi hs] at hprev
    rw [derivedAt_of_not_isSeed hs, derivedAt_of_not_isSeed (hgeo ▸ hs), hgeo, hprev,
      hread (Geometry.reference_lt hg hlegal _) (Geometry.isComplete_reference hg hlegal _)]

/-- The equations have one solution: along the lanes, every block is determined by those at
earlier places, wherever its reference falls. -/
theorem IsDerived.read_eq (hg : m.geometry.IsRegular) (hgeo : m'.geometry = m.geometry)
    (h : m.IsDerived job h0) (h' : m'.IsDerived job h0) (hi : i < m.geometry.blockCount) :
    m'.read i = m.read i := by
  -- by the place and not by the index, since a reference may lie in a lane further on
  generalize hn : i % m.geometry.laneLength = n
  induction n using Nat.strongRecOn generalizing i with
  | ind n ih =>
    rw [h i hi, h' i (hgeo ▸ hi)]
    exact derivedAt_congr hg hgeo hi fun j hj hlt => ih _ (hn ▸ hlt) hj rfl

/-- Two memories that both satisfy the equations hold the same blocks. -/
theorem IsDerived.blocks_eq (hg : m.geometry.IsRegular) (hgeo : m'.geometry = m.geometry)
    (h : m.IsDerived job h0) (h' : m'.IsDerived job h0) : m'.blocks = m.blocks :=
  blocks_eq_of_read hgeo fun _ hi => h.read_eq hg hgeo h' (hgeo ▸ hi)

omit [HashSuite] in
theorem read_congr (hb : m'.blocks = m.blocks) : m'.read = m.read := by
  funext i
  rw [read, read, hb]

/-- Whether the blocks belong in their places is seen from the blocks. -/
theorem IsDerived.congr (hgeo : m'.geometry = m.geometry) (hb : m'.blocks = m.blocks)
    (h : m.IsDerived job h0) : m'.IsDerived job h0 := by
  intro i hi
  have hi := h i (hgeo ▸ hi)
  unfold IsDerivedAt derivedAt at *
  rwa [hgeo, read_congr hb]

/-! ## The slices of the first pass -/

/-- Once the blocks of the slices up to number `k` and the seeds belong in their places, slice
number `k` adds its own. -/
theorem isDerivedAt_of_sliceStep {k : Nat} (hg : m.geometry.IsRegular) (hk : k < slices)
    (h : m.SliceStep k m')
    (hm : ∀ i < m.geometry.blockCount, m.geometry.IsBefore k i → m.IsDerivedAt m.job h0 i)
    (hi : i < m.geometry.blockCount) (hb : m.geometry.IsBefore (k + 1) i) :
    m'.IsDerivedAt m.job h0 i := by
  by_cases hold : m.geometry.IsBefore k i
  · -- the block was there before the slice, and so was all that it is derived from
    unfold IsDerivedAt
    rw [h.read_before hg hk hi hold, hm i hi hold]
    rcases hold with hs | hlt
    · rw [derivedAt_of_isSeed hs, derivedAt_of_isSeed (h.geometry_eq ▸ hs), h.geometry_eq]
    · refine (derivedAt_congr hg h.geometry_eq hi fun j hj hji => ?_).symm
      exact h.read_before hg hk hj (.inr (Nat.lt_trans hji hlt))
  · -- the slice derives the block
    obtain ⟨hs, hp⟩ := Geometry.fills_locate_of_isBefore hg hi hb hold
    have hread := h.read_derived _ hp
    have hgeo := h.geometry_eq
    rw [Geometry.absolute_locate, oldFor_locate] at hread
    unfold IsDerivedAt
    rw [hread, ← h.job_eq, derivedAt_eq_blockFor (hgeo ▸ hg) (hgeo ▸ hi) (hgeo ▸ hs), hgeo]

/-- After `count` slices of the first pass their blocks and the seeds belong in their places. -/
theorem isDerivedAt_foldl_advance (hg : m.geometry.IsRegular) (h0 : Bytes) {count : Nat}
    (hc : count ≤ slices) (hi : i < m.geometry.blockCount) (hb : m.geometry.IsBefore count i) :
    ((List.range count).foldl advance (m.writeSeeds h0)).IsDerivedAt m.job h0 i := by
  induction count generalizing i with
  | zero =>
    have hs := Geometry.isBefore_zero.1 hb
    show (m.writeSeeds h0).read i = _
    rw [read_writeSeeds hg h0 hi, if_pos hs, derivedAt_of_isSeed (by simpa using hs)]
    rw [List.range_zero, List.foldl_nil, geometry_writeSeeds]
  | succ count ih =>
    have hgeo : ((List.range count).foldl advance (m.writeSeeds h0)).geometry = m.geometry := by
      rw [geometry_foldl_advance, geometry_writeSeeds]
    have hjob : ((List.range count).foldl advance (m.writeSeeds h0)).job = m.job := by
      rw [job_foldl_advance, job_writeSeeds]
    rw [foldl_advance_succ, ← hjob]
    refine isDerivedAt_of_sliceStep (hgeo ▸ hg) hc (sliceStep_advance (hgeo ▸ hg) count) ?_
      (hgeo ▸ hi) (hgeo ▸ hb)
    rw [hgeo, hjob]
    exact fun j hj => ih (Nat.le_of_succ_le hc) hj

end Memory

/-! ## The filled memory -/

namespace Fill

section
variable [HashSuite] {f : Fill} {r r' : FillRun} {inputs : HashInputs}

theorem geometry_of_run (he : f.executor.IsHonest) (h : f.run r inputs = (r', .ok ())) :
    r'.memory.geometry = r.memory.geometry := by
  rw [(run_ok he h).2.2, Memory.geometry_foldl_advance, Memory.geometry_writeSeeds]

/-- Every block that a single pass leaves behind is the one that belongs in its place. -/
theorem isDerived_of_run (he : f.executor.IsHonest) (h1 : f.params.passes.toNat = 1)
    (h : f.run r inputs = (r', .ok ())) :
    r'.memory.IsDerived r.memory.job (prehash f.params inputs) := by
  obtain ⟨hf, -, hm⟩ := run_ok he h
  have hgeo := geometry_of_run he h
  have hg := isRegular_of_fault? hf
  have hcount : sliceCount r.memory.geometry = slices := by
    rw [(fault?_eq_none_iff.1 hf).2]
    show slices * f.params.passes.toNat = slices
    rw [h1, Nat.mul_one]
  intro i hi
  rw [hgeo] at hi
  rw [hm, hcount]
  exact Memory.isDerivedAt_foldl_advance hg _ (Nat.le_refl _) hi
    (Geometry.isBefore_slices hg i)

/-- A single pass on any memory of the right shape, bound or not: one that ends leaves blocks that
all belong in their places, and no other blocks do.  It ends where the executor returns all results
and nobody calls it off. -/
theorem run_isDerived_iff (he : f.executor.IsHonest) (hf : f.params.fault? = none)
    (hg : r.memory.geometry = f.params.geometry) (h1 : f.params.passes = 1)
    (inputs : HashInputs) :
    (f.executor.ReturnsInOrder → f.IsLeftAlone r → r.progress = .untouched →
      ∃ r', f.run r inputs = (r', .ok ())) ∧
    ∀ r', f.run r inputs = (r', .ok ()) →
      r'.memory.geometry = r.memory.geometry ∧
      r'.memory.IsDerived r.memory.job (prehash f.params inputs) ∧
      ∀ m : Memory, m.geometry = r.memory.geometry →
        (m.IsDerived r.memory.job (prehash f.params inputs) ↔ m.blocks = r'.memory.blocks) := by
  have hfault := fault?_eq_none_iff.2 ⟨hf, hg⟩
  refine ⟨fun horder hl hp => exists_run horder hl hp hfault inputs, ?_⟩
  intro r' hr
  have hgeo := geometry_of_run he hr
  have hd := isDerived_of_run he (by rw [h1]; rfl) hr
  refine ⟨hgeo, hd, ?_⟩
  intro m hm
  constructor
  · intro h
    exact hd.blocks_eq (hgeo ▸ isRegular_of_fault? hfault) (hm.trans hgeo.symm) h
  · intro h
    exact hd.congr (hm.trans hgeo.symm) h

end

/-- Two workers. -/
theorem run_isDerived_iff_sixteen :
    let f : Fill := { params := .sixteen 1, executor := .threaded 2 }
    let m₀ := Memory.ofGeometry f.params.geometry none
    ∃ r', f.run { memory := m₀ } {} = (r', .ok ()) ∧ r'.memory.geometry = m₀.geometry ∧
      r'.memory.IsDerived none (prehash f.params {}) ∧
      ∀ m : Memory, m.geometry = m₀.geometry →
        (m.IsDerived none (prehash f.params {}) ↔ m.blocks = r'.memory.blocks) := by
  intro f m₀
  have he := (Executor.isReliable_threaded 2).returnsInOrder
  obtain ⟨hends, hderived⟩ := run_isDerived_iff (f := f) (r := { memory := m₀ })
    he.isHonest (by decide) rfl rfl {}
  obtain ⟨r', hr⟩ := hends he (.inr ⟨rfl, fun _ _ _ => rfl⟩) rfl
  exact ⟨r', hr, hderived r' hr⟩

end Fill

end MemoryHard
