import MemoryHard.Digest.Standard
import MemoryHard.Proofs.Argon2d.Squares
import MemoryHard.Proofs.Argon2d.Window
import MemoryHard.Proofs.Digest.Output
import MemoryHard.Proofs.Memory.FirstPass
import MemoryHard.Proofs.Memory.Overwrite

/-!
# MemoryHard.Proofs.Argon2d.Refinement — filling a memory is Argon2d

Overwriting the blocks of a memory in place keeps it in step with the matrix of RFC 9106, and a
fill does nothing else, in whatever order the lanes of a slice are taken.

* `Argon2d.initialHash_eq_prehash` — both start from the same hash;
* `Memory.Represents` — the memory holds the blocks of a matrix, row by row;
* `Represents.overwrite`, `Represents.overwriteSlices` — one block, and all slices;
* `Represents.tag_eq` — the tag of such a memory;
* `Fill.fill_eq_overwriteSlices` — the fill and what it is worth.
-/

namespace MemoryHard

theorem Argon2d.initialHash_eq_prehash [HashSuite] (p : Params) (inputs : HashInputs) :
    initialHash p inputs = prehash p inputs := rfl

namespace Memory

variable {m : Memory} {g : Geometry} {B : Argon2d.Matrix} {p : Position}

/-- The memory belongs to no job and holds the blocks of a matrix, row by row. -/
structure Represents (m : Memory) (g : Geometry) (B : Argon2d.Matrix) : Prop where
  geometry_eq : m.geometry = g
  job_eq : m.job = none
  read_eq : ∀ i < g.lanes, ∀ j < g.laneLength,
    (m.read (i * g.laneLength + j)).square = B.block i j

namespace Represents

/-- A position is overwritten with the block that Argon2d computes. -/
theorem blockFor_eq (hg : g.IsRegular) (h : m.Represents g B) (hp : p.IsLegal g) :
    (m.blockFor p (m.oldFor p)).square =
      Argon2d.nextBlock g.lanes g.segmentLength p.pass p.slice p.lane B p.index := by
  obtain ⟨rfl, hjob, hread⟩ := h
  have hin := hp.isWithin
  have hprev : (m.read (p.previous m.geometry)).square = B.block p.lane
      ((p.place m.geometry + m.geometry.laneLength - 1) % m.geometry.laneLength) := by
    rw [Geometry.previous_eq_mod hin]
    exact hread _ hin.2.1 _ (Nat.mod_lt _ hg.laneLength_pos)
  have hold : (m.read (p.absolute m.geometry)).square = B.block p.lane (p.place m.geometry) := by
    rw [Position.absolute_eq]
    exact hread _ hin.2.1 _ (Position.place_lt hin)
  have href (word : UInt64) : (m.read (m.geometry.reference p word)).square =
      B.block (m.geometry.referenceLane p word)
        (Argon2d.pick (Argon2d.window m.geometry.segmentLength (4 * p.pass + p.slice) p.index
          (m.geometry.referenceLane p word = p.lane)) (word.toNat % UInt32.size)) := by
    rw [Argon2d.pick_window hg.two_le_segmentLength hp]
    · exact hread _ (Geometry.referenceLane_lt hg hp word) _ (Geometry.pick_lt hg _ _)
    · -- in the first slice of all the lane is not drawn but is the own one
      intro h1 h2
      have hlane : m.geometry.referenceLane p word = p.lane := if_pos ⟨h1, h2⟩
      exact decide_eq_true hlane
  have hbinding (i : Nat) : m.binding i = none := by
    rw [binding, hjob]
    rfl
  have hbefore : B.block p.lane ((p.slice * m.geometry.segmentLength + p.index +
      4 * m.geometry.segmentLength - 1) % (4 * m.geometry.segmentLength)) =
        (m.read (p.previous m.geometry)).square := hprev.symm
  unfold blockFor Argon2d.nextBlock
  dsimp only
  rw [hbinding, hbefore]
  unfold oldFor
  -- only from the second pass on the old block is added
  by_cases hpass : p.pass = 0
  · rw [if_neg (by omega), if_pos hpass, Block.square_derive, href]
    rfl
  · rw [if_pos (by omega), if_neg hpass, Block.derive_some, Block.square_xor, Block.square_derive,
      href, hold]
    rfl

/-- Overwriting a block keeps memory and matrix in step. -/
theorem overwrite (hg : g.IsRegular) (h : m.Represents g B) (hp : p.IsLegal g) :
    (m.overwrite p).Represents g
      (Argon2d.fillBlock g.lanes g.segmentLength p.pass p.slice p.lane B p.index) := by
  have hnew := h.blockFor_eq hg hp
  obtain ⟨rfl, hjob, hread⟩ := h
  refine ⟨rfl, hjob, ?_⟩
  intro i hi j hj
  rw [overwrite_eq]
  have hin := hp.isWithin
  show _ = if i = p.lane ∧ j = p.place m.geometry then _ else _
  split_ifs with hij
  · rw [hij.1, hij.2, ← Position.absolute_eq, read_write_self (Position.absolute_lt hin), hnew]
  · rw [read_write_of_ne]
    · exact hread i hi j hj
    · rw [Position.absolute_eq]
      intro heq
      -- an index has one row and one column
      have hdiv := congrArg (· / m.geometry.laneLength) heq
      have hmod := congrArg (· % m.geometry.laneLength) heq
      simp only [Geometry.lane_mul_add_div _ hj, Geometry.lane_mul_add_mod _ hj,
        Geometry.lane_mul_add_div _ (Position.place_lt hin),
        Geometry.lane_mul_add_mod _ (Position.place_lt hin)] at hdiv hmod
      exact hij ⟨hdiv.symm, hmod.symm⟩

/-- Overwriting a segment keeps memory and matrix in step. -/
theorem overwriteSegment (hg : g.IsRegular) (h : m.Represents g B) {job : SegmentJob}
    (hjob : job.IsWithin g) :
    (m.overwriteSegment job).Represents g
      (Argon2d.fillSegment g.lanes g.segmentLength job.pass job.slice B job.lane) := by
  have hgiven := SegmentJob.given_le_segmentLength hg job
  unfold Memory.overwriteSegment Argon2d.fillSegment
  rw [h.geometry_eq]
  show Represents (List.foldl _ _ (List.range' job.given _)) g
    (List.foldl _ _ (List.range' job.given (g.segmentLength - job.given)))
  refine List.foldl_rel (r := (Represents · g)) h ?_
  intro index hmem m' B' h'
  obtain ⟨hlo, hhi⟩ := List.mem_range'_1.1 hmem
  exact h'.overwrite (p := job.position index) hg
    ((SegmentJob.isLegal_position_iff hjob).2 ⟨hlo, by omega⟩)

/-- Overwriting a slice row by row keeps memory and matrix in step. -/
theorem overwriteSlice (hg : g.IsRegular) (h : m.Represents g B) {pass slice : Nat}
    (hs : slice < slices) :
    (m.overwriteSlice (List.range g.lanes) (slices * pass + slice)).Represents g
      (Argon2d.fillSlice g.lanes g.segmentLength pass B slice) := by
  unfold Memory.overwriteSlice Argon2d.fillSlice
  rw [slice_number_div pass hs, slice_number_mod pass hs]
  refine List.foldl_rel (r := (Represents · g)) h ?_
  intro lane hmem m' B' h'
  have hin : (⟨pass, slice, lane⟩ : SegmentJob).IsWithin g := ⟨hs, List.mem_range.1 hmem⟩
  exact h'.overwriteSegment hg hin

/-- So does everything up to the end of a pass. -/
theorem overwriteSlices (hg : g.IsRegular) (h : m.Represents g B) (passes : Nat) :
    (m.overwriteSlices (fun _ => List.range g.lanes) (slices * passes)).Represents g
      ((List.range passes).foldl (Argon2d.fillPass g.lanes g.segmentLength) B) := by
  unfold Memory.overwriteSlices
  induction passes with
  | zero => exact h
  | succ passes ih =>
    rw [Nat.mul_succ, List.range_add, List.foldl_append, List.foldl_map, List.range_succ,
      List.foldl_append, List.foldl_cons, List.foldl_nil]
    exact List.foldl_rel (r := (Represents · g)) ih fun slice hmem m' B' h' =>
      h'.overwriteSlice hg (List.mem_range.1 hmem)

variable [HashSuite]

/-- A memory of zeros with its seeds is what Argon2d starts from. -/
theorem start (hg : g.IsRegular) (h₀ : Bytes) :
    ((ofGeometry g none).writeSeeds h₀).Represents g (Argon2d.start h₀) := by
  refine ⟨geometry_writeSeeds _ _, job_writeSeeds _ _, ?_⟩
  intro i hi j hj
  have hlt : i * g.laneLength + j < g.blockCount := Geometry.lane_mul_add_lt hi hj
  have hread := read_writeSeeds (m := ofGeometry g none) hg h₀ hlt
  have hzero : (ofGeometry g none).read (i * g.laneLength + j) = Block.zero := by
    rw [read_eq_getElem (by simpa [ofGeometry] using hlt)]
    exact Array.getElem_replicate _
  have hlane : (ofGeometry g none).geometry.laneLength = g.laneLength := rfl
  rw [hread, hzero, Geometry.isSeed, hlane, Geometry.lane_mul_add_div i hj,
    Geometry.lane_mul_add_mod i hj]
  show _ = if j < 2 then _ else _
  by_cases hseed : j < 2
  · rw [if_pos (decide_eq_true hseed), if_pos hseed, seedBlock, Block.square_ofBytes,
      Digest.stretch_eq_linked]
    rfl
  · rw [if_neg (by simpa using hseed), if_neg hseed, Block.square_zero]

/-- The tag of a memory is drawn from the last column. -/
theorem tag_eq (hg : g.IsRegular) (h : m.Represents g B) (length : Nat) :
    m.tag length = Digest.linked length
      ((List.range g.lanes).foldl (fun C i => C ^^^ B.block i (g.laneLength - 1))
        Argon2d.Square.zero).toBytes := by
  have hpos := hg.laneLength_pos
  have hlast {i : Nat} (hi : i < g.lanes) :
      (m.read (i * g.laneLength + g.laneLength - 1)).square = B.block i (g.laneLength - 1) := by
    rw [Nat.add_sub_assoc hpos]
    exact h.read_eq i hi _ (by omega)
  obtain ⟨lanes, hlanes⟩ := Nat.exists_eq_succ_of_ne_zero (Nat.ne_of_gt hg.lanes_pos)
  have hrange : List.range g.lanes = 0 :: List.range' 1 (g.lanes - 1) := by
    rw [hlanes, List.range_eq_range', List.range'_succ]
    rfl
  -- the memory starts with the last block of the first lane, and the matrix with zeros
  have hfirst : (m.read (0 * g.laneLength + g.laneLength - 1)).square =
      Argon2d.Square.zero ^^^ B.block 0 (g.laneLength - 1) := by
    rw [← Block.zero_xor (m.read _), Block.square_xor, Block.square_zero, hlast hg.lanes_pos]
  unfold tag
  dsimp only
  rw [h.geometry_eq, hrange, List.foldl_cons, Digest.stretch_eq_linked, ← Block.toBytes_square]
  congr 2
  refine List.foldl_rel (r := fun (C : Block) C' => C.square = C') hfirst ?_
  intro i hi C C' hC
  obtain ⟨-, hhi⟩ := List.mem_range'_1.1 hi
  rw [Block.square_xor, hC, hlast (by omega)]

end Represents

/-- Slices one after the other come to the same as overwriting, whatever the order of the lanes
in each of them. -/
theorem foldl_advance_eq_overwriteSlices (hg : m.geometry.IsRegular) {order : Nat → List Nat}
    (ho : ∀ k, (order k).Perm (List.range m.geometry.lanes)) (count : Nat) :
    (List.range count).foldl advance m = m.overwriteSlices order count := by
  induction count with
  | zero => rfl
  | succ count ih =>
    have hgeo := geometry_foldl_advance m (List.range count)
    rw [foldl_advance_succ, advance_eq_overwriteSlice (hgeo ▸ hg) (hgeo ▸ ho count) count, ih,
      overwriteSlices, overwriteSlices, List.range_succ, List.foldl_append, List.foldl_cons,
      List.foldl_nil]

/-- Whatever an unbound memory held before, its tag after the seeds and all slices is that of
Argon2d. -/
theorem tag_foldl_advance [HashSuite] {params : Params} (hf : params.fault? = none)
    (hgeo : m.geometry = params.geometry) (hjob : m.job = none) (inputs : HashInputs) :
    ((List.range (sliceCount m.geometry)).foldl advance
      (m.writeSeeds (prehash params inputs))).tag params.tagLength.toNat =
        Argon2d.tag params inputs := by
  have hg : params.geometry.IsRegular := Params.isRegular_geometry hf
  have hcount : slices ≤ sliceCount m.geometry := by
    rw [sliceCount, hgeo]
    exact Nat.le_mul_of_pos_right _ hg.passes_pos
  -- a fresh memory would do
  have hfresh : (m.writeSeeds (prehash params inputs)).AgreesUpTo
      ((ofGeometry params.geometry none).writeSeeds (prehash params inputs)) 0 :=
    agreesUpTo_writeSeeds (hgeo ▸ hg) hgeo hjob _
  have hstart := Represents.start hg (prehash params inputs)
  have hreg := hg
  rw [← hstart.geometry_eq] at hreg
  rw [foldl_advance_congr (by rwa [geometry_writeSeeds, hgeo]) hfresh hcount,
    foldl_advance_eq_overwriteSlices hreg (fun _ => .refl _),
    hstart.geometry_eq, hgeo]
  unfold Argon2d.tag
  dsimp only
  rw [Argon2d.initialHash_eq_prehash]
  exact (hstart.overwriteSlices hg params.passes.toNat).tag_eq hg _

end Memory

namespace Fill

section
variable [HashSuite] {f : Fill} {r : FillRun}

/-- A fill that is left alone ends.  One that ends comes to the same as overwriting block after
block, pass by pass, slice by slice and lane by lane, with the lanes of every slice in any order.
Without a job, the tag after the seeds and such a fill is that of Argon2d. -/
theorem fill_eq_overwriteSlices (he : f.executor.ReturnsInOrder) (hf : f.params.fault? = none)
    (hg : r.memory.geometry = f.params.geometry) :
    (f.IsLeftAlone r → (r.progress = .seeded → ∃ r', f.fill r = (r', .ok ())) ∧
      (r.progress = .untouched → ∀ inputs, ∃ r', f.run r inputs = (r', .ok ()))) ∧
    (∀ r', f.fill r = (r', .ok ()) → r'.progress = .complete ∧
      ∀ order : Nat → List Nat, (∀ k, (order k).Perm (List.range r.memory.geometry.lanes)) →
        r'.memory = r.memory.overwriteSlices order (sliceCount r.memory.geometry)) ∧
    ∀ r' inputs, f.run r inputs = (r', .ok ()) →
      (∀ order : Nat → List Nat, (∀ k, (order k).Perm (List.range r.memory.geometry.lanes)) →
        r'.memory = (r.memory.writeSeeds (prehash f.params inputs)).overwriteSlices order
          (sliceCount r.memory.geometry)) ∧
      (r.memory.job = none →
        r'.memory.tag? f.params.tagLength.toNat = some (Argon2d.tag f.params inputs)) := by
  have hfault := fault?_eq_none_iff.2 ⟨hf, hg⟩
  have hreg := isRegular_of_fault? hfault
  refine ⟨?_, ?_, ?_⟩
  · intro hl
    exact ⟨fun hp => exists_fill he hl hp hfault,
      fun hp inputs => exists_run he hl hp hfault inputs⟩
  · intro r' hr
    obtain ⟨-, hcomplete, hm⟩ := fill_ok he.isHonest hr
    refine ⟨hcomplete, ?_⟩
    intro order ho
    rw [hm, Memory.foldl_advance_eq_overwriteSlices hreg ho]
  · intro r' inputs hr
    obtain ⟨-, -, hm⟩ := run_ok he.isHonest hr
    constructor
    · intro order ho
      rw [← Memory.geometry_writeSeeds r.memory (prehash f.params inputs)] at hreg ho
      rw [hm, Memory.foldl_advance_eq_overwriteSlices hreg ho]
    · intro hjob
      have hroom : Bytes.hasRoom f.params.tagLength.toNat = true := by
        have hlt := f.params.tagLength.toNat_lt
        exact decide_eq_true (by omega)
      rw [Memory.tag?, if_pos hroom, hm, Memory.tag_foldl_advance hf hg hjob]

end

/-- Two workers, and the lanes of every slice the other way round. -/
theorem fill_eq_overwriteSlices_sixteen :
    let f : Fill := { params := .sixteen 2, executor := .threaded 2 }
    let m := Memory.ofGeometry f.params.geometry none
    (∃ r', f.fill { memory := m, progress := .seeded } = (r', .ok ()) ∧
      r'.memory = m.overwriteSlices (fun _ => [1, 0]) 8) ∧
    ∃ r', f.run { memory := m } {} = (r', .ok ()) ∧
      r'.memory.tag? 32 = some (Argon2d.tag f.params {}) := by
  intro f m
  have he := (Executor.isReliable_threaded 2).returnsInOrder
  have hperm : ∀ k : Nat, ([1, 0] : List Nat).Perm (List.range 2) := fun _ => by decide
  obtain ⟨hends, hfill, -⟩ := fill_eq_overwriteSlices (f := f)
    (r := { memory := m, progress := .seeded }) he (by decide) rfl
  obtain ⟨hends', -, hrun⟩ :=
    fill_eq_overwriteSlices (f := f) (r := { memory := m }) he (by decide) rfl
  obtain ⟨r₁, h₁⟩ := (hends (.inr ⟨rfl, fun _ _ _ => rfl⟩)).1 rfl
  obtain ⟨r₂, h₂⟩ := (hends' (.inr ⟨rfl, fun _ _ _ => rfl⟩)).2 rfl {}
  exact ⟨⟨r₁, h₁, (hfill r₁ h₁).2 (fun _ => [1, 0]) hperm⟩, r₂, h₂, (hrun r₂ {} h₂).2 rfl⟩

end Fill

end MemoryHard
