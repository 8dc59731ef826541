import MemoryHard.Proofs.Memory.SliceStep

/-!
# MemoryHard.Proofs.Memory.Overwrite — a slice overwritten in place

The blocks of a slice are overwritten one after the other, lane by lane.  A block that is written
later in the slice is complete for none that was written before, so each block keeps following
from what the memory holds.

* `Geometry.slicePositions` — the positions of a slice, in the order in which they are filled;
* `read_foldl_overwrite` — what a run of positions leaves behind;
* `sliceStep_overwriteSlice` — the equations of a slice hold, whatever the order of the lanes.
-/

namespace MemoryHard

/-! ## The positions of a slice -/

namespace Geometry

variable {g : Geometry} {k : Nat} {p : Position}

/-- The positions of slice number `k` in the given lanes, segment by segment. -/
def slicePositions (g : Geometry) (k : Nat) (lanes : List Nat) : List Position :=
  lanes.flatMap fun lane =>
    let job : SegmentJob := ⟨k / slices, k % slices, lane⟩
    (List.range' job.given (g.segmentLength - job.given)).map job.position

theorem mem_slicePositions {lanes : List Nat} (hg : g.IsRegular)
    (hl : lanes.Perm (List.range g.lanes)) : p ∈ g.slicePositions k lanes ↔ g.Fills k p := by
  rw [fills_iff]
  unfold slicePositions
  simp only [List.mem_flatMap, List.mem_map, List.mem_range'_1]
  constructor
  · rintro ⟨lane, hlane, j, hj, rfl⟩
    have := SegmentJob.given_le_segmentLength hg ⟨k / slices, k % slices, lane⟩
    have hlt := List.mem_range.1 (hl.mem_iff.1 hlane)
    exact ⟨_, mem_sliceJobs.2 ⟨rfl, rfl, hlt⟩, j, hj.1, by omega, rfl⟩
  · rintro ⟨job, hjob, j, hlo, hhi, rfl⟩
    obtain ⟨h1, h2, h3⟩ := mem_sliceJobs.1 hjob
    have hj : job.given ≤ j ∧ j < job.given + (g.segmentLength - job.given) := by omega
    refine ⟨job.lane, hl.mem_iff.2 (List.mem_range.2 h3), j, ?_⟩
    rw [← h1, ← h2]
    exact ⟨hj, rfl⟩

/-- Within its lane every segment is filled in ascending order. -/
theorem pairwise_slicePositions {lanes : List Nat} (hl : lanes.Nodup) :
    (g.slicePositions k lanes).Pairwise fun p q => q.lane = p.lane → p.index < q.index := by
  unfold slicePositions
  rw [List.pairwise_flatMap]
  constructor
  · intro lane _
    rw [List.pairwise_map]
    refine (List.pairwise_lt_range' 1).imp ?_
    intro a b h _
    exact h
  · refine hl.imp fun hne p hp q hq h => absurd h ?_
    obtain ⟨_, -, rfl⟩ := List.mem_map.1 hp
    obtain ⟨_, -, rfl⟩ := List.mem_map.1 hq
    exact fun h => hne h.symm

end Geometry

namespace Memory

variable {k : Nat}

@[simp] theorem geometry_overwrite (m : Memory) (p : Position) :
    (m.overwrite p).geometry = m.geometry := rfl

@[simp] theorem job_overwrite (m : Memory) (p : Position) : (m.overwrite p).job = m.job := rfl

@[simp] theorem geometry_foldl_overwrite (m : Memory) (ps : List Position) :
    (ps.foldl overwrite m).geometry = m.geometry := by
  induction ps generalizing m with
  | nil => rfl
  | cons p ps ih => rw [List.foldl_cons, ih, geometry_overwrite]

@[simp] theorem job_foldl_overwrite (m : Memory) (ps : List Position) :
    (ps.foldl overwrite m).job = m.job := by
  induction ps generalizing m with
  | nil => rfl
  | cons p ps ih => rw [List.foldl_cons, ih, job_overwrite]

theorem overwriteSegment_eq_foldl (m : Memory) (job : SegmentJob) :
    m.overwriteSegment job =
      ((List.range' job.given (m.geometry.segmentLength - job.given)).map job.position).foldl
        overwrite m := by
  rw [List.foldl_map]
  rfl

theorem overwriteSlice_eq_foldl (m : Memory) (lanes : List Nat) (k : Nat) :
    m.overwriteSlice lanes k = (m.geometry.slicePositions k lanes).foldl overwrite m := by
  induction lanes generalizing m with
  | nil => rfl
  | cons lane lanes ih =>
    show (m.overwriteSegment ⟨k / slices, k % slices, lane⟩).overwriteSlice lanes k = _
    rw [ih, overwriteSegment_eq_foldl, geometry_foldl_overwrite, ← List.foldl_append]
    rfl

/-! ## A run of positions -/

theorem read_overwrite_self {m : Memory} {p : Position} (hp : p.IsWithin m.geometry) :
    (m.overwrite p).read (p.absolute m.geometry) = m.blockFor p (m.oldFor p) := by
  rw [overwrite_eq, read_write_self (Position.absolute_lt hp)]

theorem read_overwrite_of_ne {m : Memory} {p : Position} {i : Nat}
    (h : p.absolute m.geometry ≠ i) : (m.overwrite p).read i = m.read i := by
  rw [overwrite_eq, read_write_of_ne h]

theorem read_foldl_overwrite_of_ne (m : Memory) {ps : List Position} {i : Nat}
    (h : ∀ p ∈ ps, p.absolute m.geometry ≠ i) : (ps.foldl overwrite m).read i = m.read i := by
  induction ps generalizing m with
  | nil => rfl
  | cons p ps ih =>
    rw [List.foldl_cons, ih (m.overwrite p) fun q hq => h q (List.mem_cons_of_mem _ hq)]
    exact read_overwrite_of_ne (h p List.mem_cons_self)

/-- After a run of positions of one slice, each of its blocks follows from what the memory holds,
if no segment goes back. -/
theorem read_foldl_overwrite {m : Memory} {ps : List Position} (hg : m.geometry.IsRegular)
    (hf : ∀ p ∈ ps, m.geometry.Fills k p)
    (ho : ps.Pairwise fun p q => q.lane = p.lane → p.index < q.index) {p : Position}
    (hp : p ∈ ps) :
    (ps.foldl overwrite m).read (p.absolute m.geometry) =
      (ps.foldl overwrite m).blockFor p (m.oldFor p) := by
  induction ps generalizing m with
  | nil => simp at hp
  | cons q ps ih =>
    have hq := hf q List.mem_cons_self
    have hps : ∀ r ∈ ps, m.geometry.Fills k r := fun r hr => hf r (List.mem_cons_of_mem _ hr)
    obtain ⟨hlater, ho⟩ := List.pairwise_cons.1 ho
    have hne : ∀ r ∈ ps, r.absolute m.geometry ≠ q.absolute m.geometry := by
      intro r hr h
      obtain rfl := (hps r hr).eq_of_absolute_eq hq h
      exact absurd (hlater r hr rfl) (Nat.lt_irrefl _)
    rw [List.foldl_cons]
    rcases List.mem_cons.1 hp with rfl | hp
    · -- nothing that is written from now on is complete for `p`
      rw [read_foldl_overwrite_of_ne (m.overwrite p) hne, read_overwrite_self hq.isWithin]
      refine (blockFor_congr hg hq.isLegal ?_ ?_ (fun i _ hc => ?_) _).symm
      · rw [geometry_foldl_overwrite, geometry_overwrite]
      · rw [job_foldl_overwrite, job_overwrite]
      · have hself : p.absolute m.geometry ≠ i := by
          rintro rfl
          exact absurd ((hq.isCompleteAt_iff hq).1 hc).2 (Nat.lt_irrefl _)
        rw [read_foldl_overwrite_of_ne (m.overwrite p), read_overwrite_of_ne hself]
        rintro r hr rfl
        obtain ⟨hlane, hlt⟩ := (hq.isCompleteAt_iff (hps r hr)).1 hc
        exact absurd (hlater r hr hlane) (Nat.lt_asymm hlt)
    · -- `q` writes another block, so `p` finds the same old one after it
      have hold : (m.overwrite q).oldFor p = m.oldFor p := by
        unfold oldFor
        rw [geometry_overwrite, read_overwrite_of_ne (hne p hp).symm]
      rw [← hold]
      exact ih hg hps ho hp

/-- A slice overwritten in place, with its lanes in any order. -/
theorem sliceStep_overwriteSlice {m : Memory} {lanes : List Nat} (hg : m.geometry.IsRegular)
    (hl : lanes.Perm (List.range m.geometry.lanes)) (k : Nat) :
    m.SliceStep k (m.overwriteSlice lanes k) := by
  have hmem (p : Position) : p ∈ m.geometry.slicePositions k lanes ↔ m.geometry.Fills k p :=
    Geometry.mem_slicePositions hg hl
  rw [overwriteSlice_eq_foldl]
  refine ⟨geometry_foldl_overwrite _ _, job_foldl_overwrite _ _, ?_, ?_⟩
  · intro p hp
    exact read_foldl_overwrite hg (fun q hq => (hmem q).1 hq)
      (Geometry.pairwise_slicePositions (hl.nodup_iff.2 List.nodup_range)) ((hmem p).2 hp)
  · intro i _ hi
    exact read_foldl_overwrite_of_ne m fun p hp => hi p ((hmem p).1 hp)

end Memory

end MemoryHard
