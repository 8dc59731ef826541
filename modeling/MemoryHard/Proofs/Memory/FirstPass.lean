import MemoryHard.Digest.Standard
import MemoryHard.Proofs.Memory.Fill

/-!
# MemoryHard.Proofs.Memory.FirstPass — what the first pass reads and what it keeps

In the first pass a position sees nothing but blocks at earlier places of their lanes, and a slice
keeps what stands before it.  So nothing that was in the memory before the seeds is ever read.

* `Geometry.mod_lt_of_isCompleteAt` — complete blocks stand at earlier places;
* `SliceStep.read_before` — what stands before a slice is kept;
* `SliceStep.agreesUpTo` — a slice carries an agreement of two memories one slice further;
* `foldl_advance_congr` — after a pass, two fills from the same seeds agree altogether;
* `Fill.memory_eq_of_run`, `Fill.exists_run_memory_eq` — so a run leaves nothing behind of what
  was in the memory.
-/

namespace MemoryHard

namespace Geometry

variable {g : Geometry} {p : Position} {i k : Nat}

/-- In the first pass only earlier places are complete. -/
theorem mod_lt_of_isCompleteAt (hp : p.IsLegal g) (h0 : p.pass = 0) (hc : g.IsCompleteAt p i) :
    i % g.laneLength < p.place g := by
  have hi := hp.2.2.1
  have hc := (isComplete_iff hi _ _).1 hc
  unfold Position.place at *
  omega

/-- The positions of the first pass stand in the slice of their number. -/
theorem fills_locate (hg : g.IsRegular) (hi : i < g.blockCount) (hs : g.isSeed i = false)
    (hlo : k * g.segmentLength ≤ i % g.laneLength)
    (hhi : i % g.laneLength < (k + 1) * g.segmentLength) : g.Fills k (g.locate i) := by
  have hlegal := isLegal_locate hg hi hs
  have hk : i % g.laneLength / g.segmentLength = k :=
    Nat.div_eq_of_lt_le hlo hhi
  have hlt : k < slices := hk ▸ hlegal.1
  exact ⟨(Nat.div_eq_of_lt hlt).symm, hk.trans (Nat.mod_eq_of_lt hlt).symm, hlegal⟩

/-- A block is there before slice number `k` of the first pass: a seed, or a block of an earlier
slice. -/
def IsBefore (g : Geometry) (k i : Nat) : Prop :=
  g.isSeed i = true ∨ i % g.laneLength < k * g.segmentLength

theorem isBefore_zero : g.IsBefore 0 i ↔ g.isSeed i = true := by
  unfold IsBefore
  rw [Nat.zero_mul]
  exact or_iff_left (Nat.not_lt_zero _)

theorem isBefore_slices (hg : g.IsRegular) (i : Nat) : g.IsBefore slices i :=
  .inr (Nat.mod_lt _ hg.laneLength_pos)

/-- What is there after a slice and was not there before is filled by the slice. -/
theorem fills_locate_of_isBefore (hg : g.IsRegular) (hi : i < g.blockCount)
    (hb : g.IsBefore (k + 1) i) (hold : ¬g.IsBefore k i) :
    g.isSeed i = false ∧ g.Fills k (g.locate i) := by
  unfold IsBefore at hb hold
  rw [not_or, Bool.not_eq_true, Nat.not_lt] at hold
  obtain ⟨hs, hlo⟩ := hold
  have hhi := hb.resolve_left (by rw [hs]; exact Bool.false_ne_true)
  exact ⟨hs, fills_locate hg hi hs hlo hhi⟩

end Geometry

namespace Memory

variable {m m' m₁ m₂ n₁ n₂ : Memory} {i k : Nat}

/-- A slice of the first pass keeps what stands in the slices before it, and the seeds. -/
theorem SliceStep.read_before (hg : m.geometry.IsRegular) (hk : k < slices)
    (h : m.SliceStep k m') (hi : i < m.geometry.blockCount) (hb : m.geometry.IsBefore k i) :
    m'.read i = m.read i := by
  refine h.read_kept i hi ?_
  rintro p hp rfl
  have hpass : p.pass = 0 := hp.1.trans (Nat.div_eq_of_lt hk)
  have hslice : p.slice = k := hp.2.1.trans (Nat.mod_eq_of_lt hk)
  rcases hb with hs | hlt
  · rw [Geometry.isSeed_absolute hg hp.isLegal hpass] at hs
    cases hs
  · rw [Position.absolute_mod hp.isWithin, Position.place, hslice] at hlt
    omega

/-- In the first pass nothing is added in. -/
theorem oldFor_locate (m : Memory) (i : Nat) : m.oldFor (m.geometry.locate i) = none := rfl

/-- Two memories of one shape and one job hold the same seeds and the same blocks in the first
slices. -/
structure AgreesUpTo (m₁ m₂ : Memory) (k : Nat) : Prop where
  geometry_eq : m₁.geometry = m₂.geometry
  job_eq : m₁.job = m₂.job
  read_eq : ∀ i < m₁.geometry.blockCount, m₁.geometry.IsBefore k i → m₁.read i = m₂.read i

/-- A slice that is filled in two memories which agree so far brings them one slice further. -/
theorem SliceStep.agreesUpTo (hg : m₁.geometry.IsRegular) (hk : k < slices)
    (h : m₁.AgreesUpTo m₂ k) (h₁ : m₁.SliceStep k n₁) (h₂ : m₂.SliceStep k n₂) :
    n₁.AgreesUpTo n₂ (k + 1) := by
  have hgeo : n₁.geometry = n₂.geometry :=
    h₁.geometry_eq.trans (h.geometry_eq.trans h₂.geometry_eq.symm)
  have hjob : n₁.job = n₂.job := h₁.job_eq.trans (h.job_eq.trans h₂.job_eq.symm)
  refine ⟨hgeo, hjob, ?_⟩
  intro i hi hb
  rw [h₁.geometry_eq] at hi hb
  -- along the lanes, since a position sees earlier places of all lanes
  generalize hn : i % m₁.geometry.laneLength = n
  induction n using Nat.strongRecOn generalizing i with
  | ind n ih =>
    by_cases hold : m₁.geometry.IsBefore k i
    · rw [h₁.read_before hg hk hi hold, h.read_eq i hi hold]
      exact (h₂.read_before (h.geometry_eq ▸ hg) hk (h.geometry_eq ▸ hi)
        (h.geometry_eq ▸ hold)).symm
    · obtain ⟨hs, hp⟩ := Geometry.fills_locate_of_isBefore hg hi hb hold
      have hread₁ := h₁.read_derived _ hp
      have hread₂ := h₂.read_derived _ (h.geometry_eq ▸ hp)
      rw [Geometry.absolute_locate, oldFor_locate] at hread₁
      rw [← h.geometry_eq, Geometry.absolute_locate] at hread₂
      rw [h.geometry_eq, oldFor_locate, ← h.geometry_eq] at hread₂
      rw [hread₁, hread₂]
      have hg2 : n₂.geometry.IsRegular := hgeo ▸ h₁.geometry_eq ▸ hg
      have hlegal := hp.isLegal
      have hgeo₂ : n₂.geometry = m₁.geometry := hgeo.symm.trans h₁.geometry_eq
      refine blockFor_congr hg2 (hgeo₂ ▸ hlegal) hgeo hjob (fun j hj hc => ?_) none
      rw [hgeo₂] at hj hc
      have hlt := Geometry.mod_lt_of_isCompleteAt hlegal rfl hc
      rw [Geometry.place_locate] at hlt
      refine ih _ (hn ▸ hlt) j hj ?_ rfl
      rcases hb with hs' | hhi
      · rw [hs] at hs'
        cases hs'
      · exact .inr (Nat.lt_trans hlt hhi)

/-! ## Runs of slices -/

@[simp] theorem geometry_foldl_advance (m : Memory) (ks : List Nat) :
    (ks.foldl advance m).geometry = m.geometry := by
  induction ks generalizing m with
  | nil => rfl
  | cons k ks ih => rw [List.foldl_cons, ih, geometry_advance]

@[simp] theorem job_foldl_advance (m : Memory) (ks : List Nat) :
    (ks.foldl advance m).job = m.job := by
  induction ks generalizing m with
  | nil => rfl
  | cons k ks ih => rw [List.foldl_cons, ih, job_advance]

theorem foldl_advance_succ (m : Memory) (count : Nat) :
    (List.range (count + 1)).foldl advance m =
      ((List.range count).foldl advance m).advance count := by
  rw [List.range_succ, List.foldl_append, List.foldl_cons, List.foldl_nil]

theorem AgreesUpTo.foldl_advance (hg : m₁.geometry.IsRegular) (h : m₁.AgreesUpTo m₂ 0) {count : Nat}
    (hc : count ≤ slices) :
    ((List.range count).foldl advance m₁).AgreesUpTo
      ((List.range count).foldl advance m₂) count := by
  induction count with
  | zero => exact h
  | succ count ih =>
    have hreg (m : Memory) (hm : m.geometry.IsRegular) :
        ((List.range count).foldl advance m).geometry.IsRegular := by
      rwa [geometry_foldl_advance]
    rw [foldl_advance_succ, foldl_advance_succ]
    exact SliceStep.agreesUpTo (hreg m₁ hg) hc (ih (Nat.le_of_succ_le hc))
      (sliceStep_advance (hreg m₁ hg) count)
      (sliceStep_advance (hreg m₂ (h.geometry_eq ▸ hg)) count)

/-- Once a whole pass is done, nothing is left of what two memories with the same seeds held
before. -/
theorem foldl_advance_congr (hg : m₁.geometry.IsRegular) (h : m₁.AgreesUpTo m₂ 0) {count : Nat}
    (hc : slices ≤ count) :
    (List.range count).foldl advance m₁ = (List.range count).foldl advance m₂ := by
  induction hc with
  | refl =>
    have hall := h.foldl_advance hg (Nat.le_refl slices)
    refine ext_read hall.geometry_eq hall.job_eq fun i hi => hall.read_eq i hi ?_
    rw [geometry_foldl_advance]
    exact Geometry.isBefore_slices hg i
  | step _ ih => rw [foldl_advance_succ, foldl_advance_succ, ih]

/-- Memories of one shape and one job agree on their seeds once those are written. -/
theorem agreesUpTo_writeSeeds [HashSuite] (hg : m₁.geometry.IsRegular)
    (hgeo : m₁.geometry = m₂.geometry) (hjob : m₁.job = m₂.job) (h0 : Bytes) :
    (m₁.writeSeeds h0).AgreesUpTo (m₂.writeSeeds h0) 0 := by
  refine ⟨by simp [hgeo], by simp [hjob], ?_⟩
  intro i hi hb
  rw [geometry_writeSeeds] at hi hb
  have hs := Geometry.isBefore_zero.1 hb
  rw [read_writeSeeds hg h0 hi, read_writeSeeds (hgeo ▸ hg) h0 (hgeo ▸ hi), if_pos hs,
    if_pos (hgeo ▸ hs), hgeo]

end Memory

/-! ## Runs -/

namespace Fill

section
variable [HashSuite] {f f' : Fill} {r₁ r₂ r₁' r₂' : FillRun} {m₁ m₂ : Memory} {inputs : HashInputs}

/-- What two memories held before does not show after a run in each, whoever computed the
segments. -/
theorem memory_eq_of_run (he : f.executor.IsHonest) (he' : f'.executor.IsHonest)
    (hparams : f'.params = f.params) (hjob : r₁.memory.job = r₂.memory.job)
    (h₁ : f.run r₁ inputs = (r₁', .ok ())) (h₂ : f'.run r₂ inputs = (r₂', .ok ())) :
    r₁'.memory = r₂'.memory := by
  obtain ⟨hf₁, -, hm₁⟩ := run_ok he h₁
  obtain ⟨hf₂, -, hm₂⟩ := run_ok he' h₂
  have hg := isRegular_of_fault? hf₁
  have hgeo : r₁.memory.geometry = r₂.memory.geometry := by
    rw [(fault?_eq_none_iff.1 hf₁).2, (fault?_eq_none_iff.1 hf₂).2, hparams]
  have hpass : slices ≤ sliceCount r₁.memory.geometry := Nat.le_mul_of_pos_right _ hg.passes_pos
  have hseeds := Memory.agreesUpTo_writeSeeds hg hgeo hjob (prehash f.params inputs)
  rw [hm₁, hm₂, hparams, ← hgeo]
  exact Memory.foldl_advance_congr (by rwa [Memory.geometry_writeSeeds]) hseeds hpass

/-- A run on a memory of the right shape ends, and from what it leaves behind nobody can tell what
was there before. -/
theorem exists_run_memory_eq (he : f.executor.IsReliable) (hp : f.params.validate = .ok ())
    (hm₁ : m₁.geometry = f.params.geometry) (hm₂ : m₂.geometry = f.params.geometry)
    (hjob : m₁.job = m₂.job) (inputs : HashInputs) :
    ∃ r₁ r₂, f.run { memory := m₁ } inputs = (r₁, .ok ()) ∧
      f.run { memory := m₂ } inputs = (r₂, .ok ()) ∧ r₁.memory = r₂.memory := by
  have hfault := Params.validate_eq_ok_iff.1 hp
  have hquiet (m : Memory) : f.IsLeftAlone { memory := m } := .inr ⟨rfl, he.isQuiet⟩
  have hends (m : Memory) (hm : m.geometry = f.params.geometry) :
      ∃ r, f.run { memory := m } inputs = (r, .ok ()) :=
    exists_run he.returnsInOrder (hquiet m) rfl (fault?_eq_none_iff.2 ⟨hfault, hm⟩) inputs
  obtain ⟨r₁, h₁⟩ := hends m₁ hm₁
  obtain ⟨r₂, h₂⟩ := hends m₂ hm₂
  exact ⟨r₁, r₂, h₁, h₂, memory_eq_of_run he.isHonest he.isHonest rfl hjob h₁ h₂⟩

end

/-- Three passes over sixteen blocks of zeros, and over sixteen blocks one of which is not. -/
theorem exists_run_memory_eq_sixteen :
    let f : Fill := { params := .sixteen 3, executor := .serial }
    let m : Memory := .ofGeometry f.params.geometry none
    let m' : Memory := m.write 5 (Block.ofBytes [1])
    m ≠ m' ∧ ∃ r r', f.run { memory := m } {} = (r, .ok ()) ∧
      f.run { memory := m' } {} = (r', .ok ()) ∧ r.memory = r'.memory := by
  intro f m m'
  have hp : f.params.validate = .ok () := Params.validate_eq_ok_iff.2 (by decide)
  have hm : m.geometry = f.params.geometry := rfl
  have hm' : m'.geometry = f.params.geometry := rfl
  have hjob : m.job = m'.job := rfl
  refine ⟨?_, exists_run_memory_eq Executor.isReliable_serial hp hm hm' hjob {}⟩
  intro heq
  have hword : (m.read 5).firstWord = (m'.read 5).firstWord := by rw [← heq]
  revert hword
  decide

end Fill

end MemoryHard
