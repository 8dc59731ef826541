import Mathlib.Data.Set.Function
import Mathlib.Order.Interval.Set.Defs
import MemoryHard.Memory.Pass
import MemoryHard.Proofs.Geometry.Checked
import MemoryHard.Proofs.Memory.Jobs

/-!
# MemoryHard.Proofs.Memory.Pass — the blocks of a memory, lane by lane and segment by segment

Of checked parameters an index, a position of the first pass and a place in a segment are three
names of one block, and none of the computations between them leaves a 64-bit word.

* `Params.SizesFit`, `Geometry.IndicesFit` — the computations on words;
* `SegmentJob.mem_indices_iff` — the segment that a block belongs to;
* `pairwise_passJobs`, `flatMap_indices_perm` — the segments of a pass share out the blocks;
* `isSeed_iff`, `seed_mem_indices` — the seeds;
* `previous_bijOn` — the blocks that the positions of a lane chain from;
* `Params.geometry_of_validate` — all of it.
-/

namespace MemoryHard

open Word

/-! ## Computations on words -/

/-- No size computed from the parameters leaves a word. -/
structure Params.SizesFit (p : Params) : Prop where
  memoryFloor : p.memoryFloor? = some p.memoryFloor
  segmentLength : p.segmentLength? = some p.segmentLength
  laneLength : p.laneLength? = some p.laneLength
  blockCount : p.blockCount? = some p.blockCount
  geometry : p.wordGeometry = some p.geometry

/-- No index computed inside the shape leaves a word. -/
structure Geometry.IndicesFit (g : Geometry) : Prop where
  blockCount : g.blockCount? = some g.blockCount
  segmentStart : ∀ lane < g.lanes, ∀ slice < slices,
    g.segmentStart? lane slice = some (g.segmentStart lane slice)
  locate : ∀ i, g.locate? i = some (g.locate i)
  isSeed : ∀ i, g.isSeed? i = some (g.isSeed i)
  absolute : ∀ p : Position, p.IsWithin g → p.absolute? g = some (p.absolute g)
  previous : ∀ p : Position, p.IsWithin g → p.previous? g = some (p.previous g)
  range : ∀ job : SegmentJob, job.IsWithin g → job.range? g = some (job.start g, job.stop g)
  reference : ∀ p : Position, p.IsLegal g → ∀ word,
    g.reference? p word = some (g.reference p word)

theorem Params.sizesFit {p : Params} (h : 0 < p.lanes.toNat) : p.SizesFit where
  memoryFloor := by
    have hlanes := p.lanes.toNat_lt
    exact mul?_eq_some (by simp only [slices, UInt64.size]; omega)
  segmentLength := segmentLength?_eq_some h
  laneLength := laneLength?_eq_some h
  blockCount := blockCount?_eq_some h
  geometry := wordGeometry_eq_some h

namespace Geometry

variable {g : Geometry} {p : Position} {job : SegmentJob} {lane slice pass i : Nat}

section
variable (hg : g.IsRegular)
include hg

theorem segmentStart_lt (hl : lane < g.lanes) (hs : slice < slices) :
    g.segmentStart lane slice < g.blockCount :=
  let first : Position := ⟨0, lane, slice, 0⟩
  Position.absolute_lt (show first.IsWithin g from ⟨hs, hl, hg.segmentLength_pos⟩)

theorem segmentStart?_eq_some (hl : lane < g.lanes) (hs : slice < slices) :
    g.segmentStart? lane slice = some (g.segmentStart lane slice) := by
  have hlt := segmentStart_lt hg hl hs
  have hblocks := hg.blockCount_lt
  have hsize : UInt32.size < UInt64.size := by decide
  unfold segmentStart at hlt
  unfold segmentStart?
  rw [mul?_eq_some (by omega), mul?_eq_some (by omega)]
  exact add?_eq_some (by omega)

theorem absolute?_eq_some (hp : p.IsWithin g) : p.absolute? g = some (p.absolute g) := by
  have hlt := Position.absolute_lt hp
  have hblocks := hg.blockCount_lt
  have hsize : UInt32.size < UInt64.size := by decide
  unfold Position.absolute at hlt
  unfold Position.absolute?
  rw [segmentStart?_eq_some hg hp.2.1 hp.1]
  exact add?_eq_some (by omega)

theorem previous?_eq_some (hp : p.IsWithin g) : p.previous? g = some (p.previous g) := by
  have hlt := Position.absolute_lt hp
  have hblocks := hg.blockCount_lt
  have hlane := laneLength_lt hg
  have hsize : UInt32.size + UInt32.size < UInt64.size := by decide
  unfold Position.previous? Position.previous
  rw [absolute?_eq_some hg hp]
  simp only [Option.bind_eq_bind, Option.bind_some]
  rw [mod?_eq_some (Nat.ne_of_gt hg.laneLength_pos)]
  simp only [Option.bind_some]
  split_ifs with hfirst
  · have hpos := hg.laneLength_pos
    rw [add?_eq_some (by omega)]
    exact sub?_eq_some (by omega)
  · -- only the first block of the memory has none before it
    have hne : p.absolute g ≠ 0 := fun h0 => hfirst (by rw [h0, Nat.zero_mod])
    exact sub?_eq_some (by omega)

theorem range?_eq_some (hjob : job.IsWithin g) :
    job.range? g = some (job.start g, job.stop g) := by
  have hlt := segmentStart_lt hg hjob.2 hjob.1
  have hblocks := hg.blockCount_lt
  have hlane := laneLength_lt hg
  have hsize : UInt32.size + UInt32.size < UInt64.size := by decide
  rw [laneLength_eq] at hlane
  unfold SegmentJob.range?
  rw [segmentStart?_eq_some hg hjob.2 hjob.1]
  simp only [Option.bind_eq_bind, Option.bind_some]
  rw [add?_eq_some (by omega)]
  rfl

theorem IsRegular.indicesFit : g.IndicesFit where
  blockCount := mul?_eq_some (Nat.lt_trans hg.blockCount_lt (by decide))
  segmentStart _ hl _ hs := segmentStart?_eq_some hg hl hs
  locate := locate?_eq_some hg
  isSeed := isSeed?_eq_some hg
  absolute _ hp := absolute?_eq_some hg hp
  previous _ hp := previous?_eq_some hg hp
  range _ hjob := range?_eq_some hg hjob
  reference _ hp := reference?_eq_some hp hg

end

end Geometry

/-! ## Segments -/

namespace SegmentJob

variable {g : Geometry} {job : SegmentJob} {i : Nat}

theorem mem_indices (g : Geometry) (job : SegmentJob) (i : Nat) :
    i ∈ job.indices g ↔ job.start g ≤ i ∧ i < job.stop g := by
  rw [indices, List.mem_range'_1, stop]
  omega

/-- A block belongs to the segment in which it is located. -/
theorem mem_indices_iff (hg : g.IsRegular) (hjob : job.IsWithin g) :
    i ∈ job.indices g ↔
      i < g.blockCount ∧ (g.locate i).lane = job.lane ∧ (g.locate i).slice = job.slice := by
  rw [mem_indices]
  constructor
  · rintro ⟨hlo, hhi⟩
    let q : Position := ⟨0, job.lane, job.slice, i - job.start g⟩
    have hq : q.IsWithin g := isWithin_position hjob (sub_start_lt hlo hhi)
    have hi : q.absolute g = i := absolute_position_sub hlo
    have hlocate := Position.locate_absolute hq rfl
    have hlt := Position.absolute_lt hq
    rw [hi] at hlocate hlt
    rw [hlocate]
    exact ⟨hlt, rfl, rfl⟩
  · rintro ⟨hi, hlane, hslice⟩
    have hplace := Geometry.absolute_locate g i
    have hindex := (Geometry.isWithin_locate hg hi).2.2
    unfold Position.absolute at hplace
    rw [hlane, hslice] at hplace
    unfold stop start
    omega

end SegmentJob

namespace Geometry

variable {g : Geometry} {p : Position} {job : SegmentJob} {lane pass i : Nat}

theorem mem_passJobs : job ∈ g.passJobs pass ↔ job.pass = pass ∧ job.IsWithin g := by
  simp only [passJobs, List.mem_flatMap, List.mem_range, mem_sliceJobs]
  constructor
  · rintro ⟨slice, hs, hpass, hslice, hlane⟩
    rw [slice_number_div pass hs] at hpass
    rw [slice_number_mod pass hs] at hslice
    exact ⟨hpass, hslice ▸ hs, hlane⟩
  · rintro ⟨rfl, hs, hlane⟩
    exact ⟨job.slice, hs, (slice_number_div _ hs).symm, (slice_number_mod _ hs).symm, hlane⟩

theorem length_passJobs (g : Geometry) (pass : Nat) :
    (g.passJobs pass).length = slices * g.lanes := by
  simp [passJobs, sliceJobs, List.length_flatMap]

theorem nodup_passJobs (g : Geometry) (pass : Nat) : (g.passJobs pass).Nodup := by
  rw [passJobs, List.nodup_flatMap]
  constructor
  · intro slice _
    refine List.Nodup.map ?_ List.nodup_range
    intro a b h
    exact congrArg SegmentJob.lane h
  · refine List.nodup_range.imp_of_mem fun {a b} ha hb hab job hjob hjob' => hab ?_
    rw [List.mem_range] at ha hb
    rw [mem_sliceJobs, slice_number_mod pass ha] at hjob
    rw [mem_sliceJobs, slice_number_mod pass hb] at hjob'
    exact hjob.2.1.symm.trans hjob'.2.1

section
variable (hg : g.IsRegular)
include hg

/-- A block located in a segment is located in no other one. -/
theorem pairwise_passJobs (pass : Nat) :
    (g.passJobs pass).Pairwise fun a b => (a.indices g).Disjoint (b.indices g) := by
  refine (nodup_passJobs g pass).imp_of_mem fun {a b} ha hb hab i hi hi' => hab ?_
  obtain ⟨hpass, ha⟩ := mem_passJobs.1 ha
  obtain ⟨hpass', hb⟩ := mem_passJobs.1 hb
  obtain ⟨-, hlane, hslice⟩ := (SegmentJob.mem_indices_iff hg ha).1 hi
  obtain ⟨-, hlane', hslice'⟩ := (SegmentJob.mem_indices_iff hg hb).1 hi'
  cases a
  cases b
  simp_all

/-- Every index is one of just one segment of a pass. -/
theorem flatMap_indices_perm (pass : Nat) :
    ((g.passJobs pass).flatMap (SegmentJob.indices g)).Perm (List.range g.blockCount) := by
  have hnodup : ((g.passJobs pass).flatMap (SegmentJob.indices g)).Nodup :=
    List.nodup_flatMap.2 ⟨fun _ _ => List.nodup_range', pairwise_passJobs hg pass⟩
  refine (List.perm_ext_iff_of_nodup hnodup List.nodup_range).2 fun i => ?_
  rw [List.mem_flatMap, List.mem_range]
  constructor
  · rintro ⟨job, hjob, hi⟩
    exact ((SegmentJob.mem_indices_iff hg (mem_passJobs.1 hjob).2).1 hi).1
  · intro hi
    obtain ⟨hs, hl, -⟩ := isWithin_locate hg hi
    let job : SegmentJob := ⟨pass, (g.locate i).slice, (g.locate i).lane⟩
    have hjob : job.IsWithin g := ⟨hs, hl⟩
    exact ⟨job, mem_passJobs.2 ⟨rfl, hjob⟩,
      (SegmentJob.mem_indices_iff hg hjob).2 ⟨hi, rfl, rfl⟩⟩

/-! ## Seeds -/

/-- The seeds of a lane are its first two blocks. -/
theorem isSeed_iff (lane i : Nat) :
    (i / g.laneLength = lane ∧ g.isSeed i = true) ↔
      ∃ which < 2, i = lane * g.laneLength + which := by
  have hlane : 2 ≤ g.laneLength := by
    have := hg.two_le_segmentLength
    rw [laneLength_eq]
    omega
  rw [isSeed, decide_eq_true_iff]
  constructor
  · rintro ⟨rfl, hseed⟩
    exact ⟨i % g.laneLength, hseed, (g.div_mul_add_mod i).symm⟩
  · rintro ⟨which, hwhich, rfl⟩
    have hlt := Nat.lt_of_lt_of_le hwhich hlane
    exact ⟨lane_mul_add_div lane hlt, (lane_mul_add_mod lane hlt).symm ▸ hwhich⟩

/-- The seeds of a lane are in its first segment. -/
theorem seed_mem_indices (pass : Nat) (hl : i / g.laneLength < g.lanes)
    (hseed : g.isSeed i = true) :
    i ∈ (⟨pass, 0, i / g.laneLength⟩ : SegmentJob).indices g := by
  have hjob : (⟨pass, 0, i / g.laneLength⟩ : SegmentJob).IsWithin g :=
    ⟨show 0 < slices by decide, hl⟩
  have hi : i < g.blockCount := by
    rw [← g.div_mul_add_mod i]
    exact lane_mul_add_lt hl (Nat.mod_lt _ hg.laneLength_pos)
  have hplace : i % g.laneLength < g.segmentLength :=
    Nat.lt_of_lt_of_le (decide_eq_true_iff.1 hseed) hg.two_le_segmentLength
  exact (SegmentJob.mem_indices_iff hg hjob).2 ⟨hi, rfl, Nat.div_eq_of_lt hplace⟩

/-! ## The blocks before -/

/-- In any pass each block of a lane comes before just one position of the lane. -/
theorem previous_bijOn (pass : Nat) (hl : lane < g.lanes) :
    Set.BijOn (Position.previous g) {p | p.IsWithin g ∧ p.pass = pass ∧ p.lane = lane}
      (Set.Ico (lane * g.laneLength) ((lane + 1) * g.laneLength)) := by
  have hsucc : (lane + 1) * g.laneLength = lane * g.laneLength + g.laneLength := Nat.succ_mul _ _
  refine ⟨?_, ?_, ?_⟩
  · rintro p ⟨hp, -, rfl⟩
    have hlt := Position.place_lt hp
    rw [previous_eq hp, Set.mem_Ico]
    split_ifs <;> omega
  · rintro p ⟨hp, hpass, hlane⟩ q ⟨hq, hpass', hlane'⟩ h
    have hlt := Position.place_lt hp
    have hlt' := Position.place_lt hq
    rw [previous_eq hp, previous_eq hq, hlane, hlane'] at h
    -- the last block comes before the first place alone, every other one before its neighbour
    have hplace : p.place g = q.place g := by
      split_ifs at h <;> omega
    apply Position.eq_of_absolute_eq hp hq (hpass.trans hpass'.symm)
    rw [Position.absolute_eq, Position.absolute_eq, hlane, hlane', hplace]
  · intro i hi
    rw [Set.mem_Ico] at hi
    -- the place behind `i`, which for the last block of the lane is the first one
    let place := if i + 1 = (lane + 1) * g.laneLength then 0 else i + 1 - lane * g.laneLength
    have hplace : place < g.laneLength := by
      have := hg.laneLength_pos
      dsimp only [place]
      split_ifs <;> omega
    let p : Position := { g.locate (lane * g.laneLength + place) with pass := pass }
    have hp : p.IsWithin g := isWithin_locate hg (lane_mul_add_lt hl hplace)
    have hpl : p.lane = lane := lane_mul_add_div lane hplace
    have hpp : p.place g = place :=
      (place_locate g _).trans (lane_mul_add_mod lane hplace)
    refine ⟨p, ⟨hp, rfl, hpl⟩, ?_⟩
    rw [previous_eq hp, hpl, hpp]
    dsimp only [place]
    split_ifs <;> omega

end

end Geometry

/-! ## Checked parameters -/

theorem Params.memoryCost_lt {p : Params} (h : 0 < p.lanes.toNat) :
    p.memoryCost.toNat < p.blockCount + 4 * p.lanes.toNat := by
  have hpos : 0 < slices * p.lanes.toNat := Nat.mul_pos (by decide) h
  have hround : p.memoryCost.toNat <
      p.memoryCost.toNat / (slices * p.lanes.toNat) * (slices * p.lanes.toNat) +
        slices * p.lanes.toNat := Nat.lt_div_mul_add hpos
  rw [blockCount, laneLength, segmentLength, Nat.mul_assoc]
  exact hround

/-- Of the memory asked for, less than four blocks for each lane are lost, and no size and no index
leaves its word.  Indices and positions of the first pass determine each other.  In each pass the
segments share out the blocks, the seeds are in the first segment of their lane, and the blocks of
a lane are those that its positions chain from, each of them once. -/
theorem Params.geometry_of_validate {p : Params} (h : p.validate = .ok ()) :
    let g := p.geometry
    (2 ≤ p.segmentLength ∧ p.blockCount ≤ p.memoryCost.toNat ∧
      p.memoryCost.toNat < p.blockCount + 4 * p.lanes.toNat ∧ p.blockCount < 2 ^ 32 ∧
      g.blockCount = p.blockCount) ∧
    (p.SizesFit ∧ g.IndicesFit) ∧
    (∀ i < g.blockCount,
      (g.locate i).pass = 0 ∧ (g.locate i).IsWithin g ∧ (g.locate i).absolute g = i) ∧
    (∀ q : Position, q.pass = 0 → q.IsWithin g →
      q.absolute g < g.blockCount ∧ g.locate (q.absolute g) = q) ∧
    ∀ pass,
      ((g.passJobs pass).length = 4 * g.lanes ∧
        (∀ job ∈ g.passJobs pass, ∀ i, i ∈ job.indices g ↔ job.start g ≤ i ∧ i < job.stop g) ∧
        ((g.passJobs pass).Pairwise fun a b => (a.indices g).Disjoint (b.indices g)) ∧
        ((g.passJobs pass).flatMap (SegmentJob.indices g)).Perm (List.range g.blockCount)) ∧
      ∀ lane < g.lanes,
        (∀ i, i / g.laneLength = lane ∧ g.isSeed i = true ↔
          ∃ which < 2, i = lane * g.laneLength + which) ∧
        (∀ i, i / g.laneLength = lane → g.isSeed i = true →
          i ∈ (⟨pass, 0, lane⟩ : SegmentJob).indices g) ∧
        Set.BijOn (Position.previous g) {q | q.IsWithin g ∧ q.pass = pass ∧ q.lane = lane}
          (Set.Ico (lane * g.laneLength) ((lane + 1) * g.laneLength)) := by
  intro g
  have hfault := validate_eq_ok_iff.1 h
  have hlanes := (fault?_eq_none_iff.1 hfault).1
  have hg : g.IsRegular := isRegular_geometry hfault
  refine ⟨⟨two_le_segmentLength hfault, p.blockCount_le, memoryCost_lt hlanes,
    p.blockCount_lt_size, geometry_blockCount p⟩, ⟨sizesFit hlanes, hg.indicesFit⟩, ?_, ?_,
    fun pass => ⟨⟨g.length_passJobs pass, fun job _ => SegmentJob.mem_indices g job,
      Geometry.pairwise_passJobs hg pass, Geometry.flatMap_indices_perm hg pass⟩, ?_⟩⟩
  · intro i hi
    exact ⟨rfl, Geometry.isWithin_locate hg hi, g.absolute_locate i⟩
  · intro q h0 hq
    exact ⟨Position.absolute_lt hq, Position.locate_absolute hq h0⟩
  · intro lane hl
    refine ⟨Geometry.isSeed_iff hg lane, ?_, Geometry.previous_bijOn hg pass hl⟩
    rintro i rfl hseed
    exact Geometry.seed_mem_indices hg pass hl hseed

/-- Two lanes of eight blocks, of the 21 asked for. -/
theorem Params.geometry_of_validate_sixteen :
    let p : Params := { lanes := 2, memoryCost := 21 }
    p.validate = .ok () ∧ p.blockCount = 16 ∧ 21 < p.blockCount + 4 * 2 ∧
      ((p.geometry.passJobs 1).flatMap (SegmentJob.indices p.geometry)).Perm (List.range 16) ∧
      Set.BijOn (Position.previous p.geometry)
        {q | q.IsWithin p.geometry ∧ q.pass = 1 ∧ q.lane = 1} (Set.Ico 8 16) := by
  intro p
  have h : p.validate = .ok () := rfl
  have hblocks : p.blockCount = 16 := by decide
  obtain ⟨⟨-, -, hround, -, hcount⟩, -, -, -, hpass⟩ := geometry_of_validate h
  obtain ⟨⟨-, -, -, hcover⟩, hlane⟩ := hpass 1
  have hlength : p.geometry.laneLength = 8 := by decide
  have hbefore := (hlane 1 (by decide)).2.2
  rw [hcount, hblocks] at hcover
  rw [hlength] at hbefore
  exact ⟨h, hblocks, hround, hcover, hbefore⟩

end MemoryHard
