import MemoryHard.Memory.Fill
import MemoryHard.Proofs.Geometry.Window

/-!
# MemoryHard.Proofs.Memory.Jobs — the jobs of a slice and the positions they fill

* `SegmentJob.isCompleteAt_iff` — a position sees the blocks of its own segment that come before
  it, and `SegmentJob.lane_eq_of_isCompleteAt` — no block of another segment of the slice;
* `Geometry.Fills`, `fills_iff` — the positions of a slice;
* `pairwise_sliceJobs` — the segments of a slice do not overlap.
-/

namespace MemoryHard

/-! ## The positions of a job -/

namespace SegmentJob

variable {g : Geometry} {job other : SegmentJob} {i j : Nat}

/-- A segment inside the shape. -/
def IsWithin (g : Geometry) (job : SegmentJob) : Prop := job.slice < slices ∧ job.lane < g.lanes

theorem isWithin_position (h : job.IsWithin g) (hj : j < g.segmentLength) :
    (job.position j).IsWithin g := ⟨h.1, h.2, hj⟩

theorem absolute_position (g : Geometry) (job : SegmentJob) (j : Nat) :
    (job.position j).absolute g = job.start g + j := rfl

theorem absolute_position_sub (h : job.start g ≤ i) :
    (job.position (i - job.start g)).absolute g = i := by
  rw [absolute_position]
  omega

theorem sub_start_lt (hlo : job.start g ≤ i) (hhi : i < job.stop g) :
    i - job.start g < g.segmentLength := by
  unfold stop at hhi
  omega

theorem start_add_lt (h : job.IsWithin g) (hj : j < g.segmentLength) :
    job.start g + j < g.blockCount :=
  Position.absolute_lt (isWithin_position h hj)

theorem given_le_segmentLength (hg : g.IsRegular) (job : SegmentJob) :
    job.given ≤ g.segmentLength := by
  have := hg.two_le_segmentLength
  unfold given
  split_ifs <;> omega

theorem isLegal_position_iff (h : job.IsWithin g) :
    (job.position j).IsLegal g ↔ job.given ≤ j ∧ j < g.segmentLength := by
  simp only [Position.IsLegal, position, given, h.1, h.2, true_and]
  split_ifs <;> omega

theorem previous_position (h : job.IsWithin g) (hj : j < g.segmentLength) (h0 : j ≠ 0) :
    (job.position j).previous g = job.start g + (j - 1) := by
  have hplace : (job.position j).place g ≠ 0 := by
    show job.slice * g.segmentLength + j ≠ 0
    omega
  have habs := Position.absolute_eq g (job.position j)
  rw [absolute_position] at habs
  rw [Geometry.previous_eq (isWithin_position h hj), if_neg hplace]
  omega

/-- Of the blocks of its segment, those before a position are complete for it. -/
theorem isCompleteAt_iff (h : job.IsWithin g) (hj : j < g.segmentLength) (hlo : job.start g ≤ i)
    (hhi : i < job.stop g) : g.IsCompleteAt (job.position j) i ↔ i - job.start g < j := by
  have hc := Geometry.isCompleteAt_absolute (isWithin_position h hj)
    (isWithin_position h (sub_start_lt hlo hhi)) rfl
  rw [absolute_position_sub hlo] at hc
  exact hc.trans (and_iff_right rfl)

/-- Of the segments of one slice, a position sees blocks of its own only. -/
theorem lane_eq_of_isCompleteAt (h : job.IsWithin g) (h' : other.IsWithin g)
    (hs : other.slice = job.slice) (hj : j < g.segmentLength) (hlo : other.start g ≤ i)
    (hhi : i < other.stop g) (hc : g.IsCompleteAt (job.position j) i) :
    other.lane = job.lane := by
  rw [← absolute_position_sub hlo, Geometry.isCompleteAt_absolute (isWithin_position h hj)
    (isWithin_position h' (sub_start_lt hlo hhi)) hs] at hc
  exact hc.1

end SegmentJob

/-! ## The jobs of a slice -/

section
variable {g : Geometry} {k : Nat} {job other : SegmentJob}

theorem slice_number_div {slice : Nat} (pass : Nat) (hs : slice < slices) :
    (slices * pass + slice) / slices = pass := by
  rw [Nat.mul_add_div (by decide), Nat.div_eq_of_lt hs, Nat.add_zero]

theorem slice_number_mod {slice : Nat} (pass : Nat) (hs : slice < slices) :
    (slices * pass + slice) % slices = slice := by
  rw [Nat.mul_add_mod, Nat.mod_eq_of_lt hs]

theorem mem_sliceJobs :
    job ∈ sliceJobs g k ↔ job.pass = k / slices ∧ job.slice = k % slices ∧ job.lane < g.lanes := by
  simp only [sliceJobs, List.mem_map, List.mem_range]
  constructor
  · rintro ⟨lane, hl, rfl⟩
    exact ⟨rfl, rfl, hl⟩
  · rintro ⟨h1, h2, h3⟩
    exact ⟨job.lane, h3, by rw [← h1, ← h2]⟩

theorem isWithin_of_mem_sliceJobs (h : job ∈ sliceJobs g k) : job.IsWithin g := by
  obtain ⟨-, h2, h3⟩ := mem_sliceJobs.1 h
  exact ⟨h2 ▸ Nat.mod_lt _ (by decide), h3⟩

theorem eq_of_mem_sliceJobs (h : job ∈ sliceJobs g k) (h' : other ∈ sliceJobs g k)
    (hlane : other.lane = job.lane) : other = job := by
  obtain ⟨h1, h2, -⟩ := mem_sliceJobs.1 h
  obtain ⟨h1', h2', -⟩ := mem_sliceJobs.1 h'
  cases job
  cases other
  simp_all

/-- The segments of a slice stand apart, each in a lane of its own. -/
theorem pairwise_sliceJobs (g : Geometry) (k : Nat) :
    (sliceJobs g k).Pairwise fun a b => a.stop g ≤ b.start g := by
  unfold sliceJobs
  rw [List.pairwise_map]
  refine List.pairwise_lt_range.imp ?_
  intro a b hab
  have hs : k % slices + 1 ≤ slices := Nat.mod_lt _ (by decide)
  have h1 := Nat.mul_le_mul_right g.segmentLength hs
  have h2 := Nat.mul_le_mul_right g.laneLength (Nat.succ_le_of_lt hab)
  have hlane : slices * g.segmentLength = g.laneLength := rfl
  rw [Nat.succ_mul] at h1 h2
  unfold SegmentJob.stop SegmentJob.start Geometry.segmentStart
  dsimp only
  omega

end

/-! ## The positions of a slice -/

/-- Slice number `k` derives a block at this position. -/
def Geometry.Fills (g : Geometry) (k : Nat) (p : Position) : Prop :=
  p.pass = k / slices ∧ p.slice = k % slices ∧ p.IsLegal g

namespace Geometry

variable {g : Geometry} {k : Nat} {p q : Position}

/-- The positions of a slice are those of its jobs, but for the seeds. -/
theorem fills_iff : g.Fills k p ↔
    ∃ job ∈ sliceJobs g k, ∃ j, job.given ≤ j ∧ j < g.segmentLength ∧ p = job.position j := by
  constructor
  · intro h
    have hjob : (⟨p.pass, p.slice, p.lane⟩ : SegmentJob) ∈ sliceJobs g k :=
      mem_sliceJobs.2 ⟨h.1, h.2.1, h.2.2.2.1⟩
    have hlegal := (SegmentJob.isLegal_position_iff (isWithin_of_mem_sliceJobs hjob)).1 h.2.2
    exact ⟨_, hjob, p.index, hlegal.1, hlegal.2, rfl⟩
  · rintro ⟨job, hjob, j, hlo, hhi, rfl⟩
    obtain ⟨h1, h2, -⟩ := mem_sliceJobs.1 hjob
    exact ⟨h1, h2,
      (SegmentJob.isLegal_position_iff (isWithin_of_mem_sliceJobs hjob)).2 ⟨hlo, hhi⟩⟩

namespace Fills

theorem isLegal (h : g.Fills k p) : p.IsLegal g := h.2.2

theorem isWithin (h : g.Fills k p) : p.IsWithin g := h.2.2.isWithin

theorem eq_of_absolute_eq (hp : g.Fills k p) (hq : g.Fills k q)
    (h : p.absolute g = q.absolute g) : p = q :=
  Position.eq_of_absolute_eq hp.isWithin hq.isWithin (hp.1.trans hq.1.symm) h

/-- Of the blocks that a slice derives, those before a position in its own lane are complete for
it. -/
theorem isCompleteAt_iff (hp : g.Fills k p) (hq : g.Fills k q) :
    g.IsCompleteAt p (q.absolute g) ↔ q.lane = p.lane ∧ q.index < p.index :=
  isCompleteAt_absolute hp.isWithin hq.isWithin (hq.2.1.trans hp.2.1.symm)

end Fills

end Geometry

end MemoryHard
