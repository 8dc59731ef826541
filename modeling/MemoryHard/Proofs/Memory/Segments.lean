import MemoryHard.Proofs.Memory.Overwrite

/-!
# MemoryHard.Proofs.Memory.Segments — a slice whose segments are computed apart

The segments of a slice are computed from the memory before the slice, each with its own blocks
kept aside, and are written when all of them are there.  Since no segment reads what another one
produces, the blocks follow from what the memory holds in the end.

* `Memory.segmentBlock` — the blocks of a segment, with `segmentBlock_of_lt_given` for the seeds
  and `segmentBlock_eq_derive` for the others;
* `Memory.advance` — the memory after the segments of a slice are written, with `read_advance`
  and `read_advance_of_not_mem`;
* `sliceStep_advance`, `advance_eq_overwriteSlice` — the equations of a slice hold, so that the
  slice might as well have been overwritten in place.
-/

namespace MemoryHard

namespace Memory

variable {m : Memory} {job : SegmentJob} {j n : Nat}

/-! ## The blocks of a segment -/

/-- The seeds of a segment and the first `n` blocks that are computed after them. -/
def segmentPrefix (m : Memory) (job : SegmentJob) (n : Nat) : Array Block :=
  (List.range n).foldl (fun done _ => done.push (m.nextBlock job done))
    (m.blocks.extract (job.start m.geometry) (job.start m.geometry + job.given))

/-- Block number `j` of a segment. -/
def segmentBlock (m : Memory) (job : SegmentJob) (j : Nat) : Block :=
  (m.segmentPrefix job (m.geometry.segmentLength - job.given)).getD j Block.zero

theorem segment_eq_toList (m : Memory) (job : SegmentJob) :
    m.segment job = (m.segmentPrefix job (m.geometry.segmentLength - job.given)).toList := rfl

theorem segmentPrefix_succ (m : Memory) (job : SegmentJob) (n : Nat) :
    m.segmentPrefix job (n + 1) =
      (m.segmentPrefix job n).push (m.nextBlock job (m.segmentPrefix job n)) := by
  unfold segmentPrefix
  rw [List.range_succ, List.foldl_append, List.foldl_cons, List.foldl_nil]

/-- The block at an index as the segment of a job sees it: its own blocks where it has them, and
else what stood in the memory before. -/
def seenBy (m : Memory) (job : SegmentJob) (i : Nat) : Block :=
  if job.start m.geometry ≤ i ∧ i < job.stop m.geometry then
    m.segmentBlock job (i - job.start m.geometry)
  else m.read i

theorem seenBy_start_add (hj : j < m.geometry.segmentLength) :
    m.seenBy job (job.start m.geometry + j) = m.segmentBlock job j := by
  unfold seenBy
  rw [if_pos ⟨Nat.le_add_right _ _, Nat.add_lt_add_left hj _⟩, Nat.add_sub_cancel_left]

section
variable (hg : m.geometry.IsRegular) (hjob : job.IsWithin m.geometry)
include hg hjob

theorem start_add_given_le : job.start m.geometry + job.given ≤ m.blocks.size := by
  have hgiven := SegmentJob.given_le_segmentLength hg job
  have hlast := SegmentJob.start_add_lt hjob (Nat.sub_lt hg.segmentLength_pos Nat.zero_lt_one)
  have := hg.segmentLength_pos
  rw [m.size_eq]
  omega

theorem size_segmentPrefix (n : Nat) : (m.segmentPrefix job n).size = job.given + n := by
  induction n with
  | zero =>
    have := start_add_given_le hg hjob
    simp only [segmentPrefix, List.range_zero, List.foldl_nil, Array.size_extract]
    omega
  | succ n ih =>
    rw [segmentPrefix_succ, Array.size_push, ih]
    omega

/-- What is computed stays. -/
theorem getD_segmentPrefix_add (hj : j < job.given + n) (d : Nat) :
    (m.segmentPrefix job (n + d)).getD j Block.zero =
      (m.segmentPrefix job n).getD j Block.zero := by
  induction d with
  | zero => rfl
  | succ d ih =>
    have hlt : j < (m.segmentPrefix job (n + d)).size := by
      rw [size_segmentPrefix hg hjob]
      omega
    rw [← ih, ← Nat.add_assoc, segmentPrefix_succ]
    simp only [Array.getD_eq_getD_getElem?, Array.getElem?_push_lt hlt,
      Array.getElem?_eq_getElem hlt]

theorem segmentBlock_eq_getD (hn : n ≤ m.geometry.segmentLength - job.given)
    (hj : j < job.given + n) :
    m.segmentBlock job j = (m.segmentPrefix job n).getD j Block.zero := by
  obtain ⟨d, hd⟩ := Nat.exists_eq_add_of_le hn
  rw [segmentBlock, hd, getD_segmentPrefix_add hg hjob hj]

theorem length_segment : (m.segment job).length = m.geometry.segmentLength := by
  have := SegmentJob.given_le_segmentLength hg job
  rw [segment_eq_toList, Array.length_toList, size_segmentPrefix hg hjob]
  omega

omit hg hjob in
theorem segment_getElem (hj : j < (m.segment job).length) :
    (m.segment job)[j] = m.segmentBlock job j := by
  have hlt : j < (m.segmentPrefix job (m.geometry.segmentLength - job.given)).size := hj
  simp only [segment_eq_toList, segmentBlock, Array.getElem_toList, Array.getD_eq_getD_getElem?,
    Array.getElem?_eq_getElem hlt, Option.getD_some]

/-- The seeds of a segment are taken over. -/
theorem segmentBlock_of_lt_given (hj : j < job.given) :
    m.segmentBlock job j = m.read (job.start m.geometry + j) := by
  have hle := start_add_given_le hg hjob
  rw [segmentBlock_eq_getD hg hjob (Nat.zero_le _) hj]
  have hlt : j < (m.segmentPrefix job 0).size := by
    rw [size_segmentPrefix hg hjob]
    omega
  rw [read_eq_getElem (by omega)]
  simp only [Array.getD_eq_getD_getElem?, Array.getElem?_eq_getElem hlt, Option.getD_some]
  simp [segmentPrefix]

/-- The other blocks are derived from what the segment sees. -/
theorem segmentBlock_eq_derive (hlo : job.given ≤ j) (hhi : j < m.geometry.segmentLength)
    {previous : Block} (hprev : previous = m.seenBy job ((job.position j).previous m.geometry)) :
    m.segmentBlock job j = Block.derive previous
      (m.seenBy job (m.geometry.reference (job.position j) previous.firstWord))
      (m.oldFor (job.position j)) (m.binding ((job.position j).absolute m.geometry)) := by
  have hlegal := (SegmentJob.isLegal_position_iff hjob).2 ⟨hlo, hhi⟩
  obtain ⟨n, rfl⟩ := Nat.exists_eq_add_of_le hlo
  have hsize := size_segmentPrefix hg hjob n
  have hdone (i : Nat) (hi : i < job.given + n) :
      (m.segmentPrefix job n).getD i Block.zero = m.segmentBlock job i :=
    (segmentBlock_eq_getD hg hjob (by omega) hi).symm
  have hnext : m.segmentBlock job (job.given + n) = m.nextBlock job (m.segmentPrefix job n) := by
    rw [segmentBlock_eq_getD hg hjob (by omega : n + 1 ≤ _) (by omega), segmentPrefix_succ,
      Array.getD_eq_getD_getElem?, ← hsize, Array.getElem?_push_size, Option.getD_some]
  -- what is complete and in the segment is already there
  have hseen {i : Nat} (hc : m.geometry.IsCompleteAt (job.position (job.given + n)) i) :
      m.seenBy job i =
        if job.start m.geometry ≤ i ∧ i < job.stop m.geometry then
          (m.segmentPrefix job n).getD (i - job.start m.geometry) Block.zero
        else m.read i := by
    unfold seenBy
    split_ifs with h
    · rw [hdone _ ((SegmentJob.isCompleteAt_iff hjob hhi h.1 h.2).1 hc)]
    · rfl
  have hprev' : previous =
      if job.given + n = 0 then m.read ((job.position (job.given + n)).previous m.geometry)
      else (m.segmentPrefix job n).getD (job.given + n - 1) Block.zero := by
    rw [hprev]
    split_ifs with h0
    · -- the block before the first place stands in another segment
      unfold seenBy
      rw [if_neg]
      intro h
      have := (SegmentJob.isCompleteAt_iff hjob hhi h.1 h.2).1 (Geometry.isComplete_previous hlegal)
      omega
    · rw [SegmentJob.previous_position hjob hhi h0, seenBy_start_add (by omega), hdone _ (by omega)]
  rw [hnext, nextBlock, hseen (Geometry.isComplete_reference hg hlegal _), hsize, ← hprev']
  rfl

end

/-! ## The segments of a slice -/

/-- The memory after the segments of slice number `k` are computed and written. -/
def advance (m : Memory) (k : Nat) : Memory :=
  m.writeSegments ((sliceJobs m.geometry k).map fun job => (job, m.segment job))

theorem geometry_writeSegments (m : Memory) (segments : List (SegmentJob × List Block)) :
    (m.writeSegments segments).geometry = m.geometry := by
  unfold writeSegments
  induction segments generalizing m with
  | nil => rfl
  | cons s segments ih => rw [List.foldl_cons, ih, geometry_writeFrom]

theorem job_writeSegments (m : Memory) (segments : List (SegmentJob × List Block)) :
    (m.writeSegments segments).job = m.job := by
  unfold writeSegments
  induction segments generalizing m with
  | nil => rfl
  | cons s segments ih => rw [List.foldl_cons, ih, job_writeFrom]

theorem writeSegments_cons (m : Memory) (s : SegmentJob × List Block)
    (segments : List (SegmentJob × List Block)) :
    m.writeSegments (s :: segments) =
      (m.writeFrom (s.1.start m.geometry) s.2).writeSegments segments := rfl

theorem read_writeSegments_of_not_mem (m : Memory) {segments : List (SegmentJob × List Block)}
    {i : Nat}
    (h : ∀ s ∈ segments, i < s.1.start m.geometry ∨ s.1.start m.geometry + s.2.length ≤ i) :
    (m.writeSegments segments).read i = m.read i := by
  induction segments generalizing m with
  | nil => rfl
  | cons s segments ih =>
    rw [writeSegments_cons, ih _ fun t ht => ?_, read_writeFrom_of_not_mem (h s List.mem_cons_self)]
    rw [geometry_writeFrom]
    exact h t (List.mem_cons_of_mem _ ht)

/-- A segment reads as it was written if none of the others overlaps with it. -/
theorem read_writeSegments {m : Memory} {segments : List (SegmentJob × List Block)}
    (hd : segments.Pairwise fun s t =>
      s.1.start m.geometry + s.2.length ≤ t.1.start m.geometry ∨
        t.1.start m.geometry + t.2.length ≤ s.1.start m.geometry)
    {s : SegmentJob × List Block} (hs : s ∈ segments) {j : Nat} (hj : j < s.2.length)
    (hlt : s.1.start m.geometry + j < m.geometry.blockCount) :
    (m.writeSegments segments).read (s.1.start m.geometry + j) = s.2[j] := by
  induction segments generalizing m with
  | nil => simp at hs
  | cons t segments ih =>
    obtain ⟨hhead, hd⟩ := List.pairwise_cons.1 hd
    have hgeo := geometry_writeFrom m (t.1.start m.geometry) t.2
    rw [writeSegments_cons]
    rcases List.mem_cons.1 hs with rfl | hs
    · -- what is written afterwards lies elsewhere
      rw [read_writeSegments_of_not_mem, read_writeFrom hj hlt]
      intro u hu
      have := hhead u hu
      rw [hgeo]
      omega
    · have h := ih (m := m.writeFrom (t.1.start m.geometry) t.2)
      rw [hgeo] at h
      exact h hd hs hlt

section
variable {k : Nat}

@[simp] theorem geometry_advance (m : Memory) (k : Nat) : (m.advance k).geometry = m.geometry :=
  geometry_writeSegments _ _

@[simp] theorem job_advance (m : Memory) (k : Nat) : (m.advance k).job = m.job :=
  job_writeSegments _ _

variable (hg : m.geometry.IsRegular)
include hg

theorem read_advance (hjob : job ∈ sliceJobs m.geometry k) (hj : j < m.geometry.segmentLength) :
    (m.advance k).read (job.start m.geometry + j) = m.segmentBlock job j := by
  have hlen {a : SegmentJob} (ha : a ∈ sliceJobs m.geometry k) :
      (m.segment a).length = m.geometry.segmentLength :=
    length_segment hg (isWithin_of_mem_sliceJobs ha)
  have hlt : j < (m.segment job).length := by
    rw [hlen hjob]
    exact hj
  rw [← segment_getElem hlt]
  refine read_writeSegments ?_ (List.mem_map_of_mem hjob) hlt
    (SegmentJob.start_add_lt (isWithin_of_mem_sliceJobs hjob) hj)
  rw [List.pairwise_map]
  refine (pairwise_sliceJobs m.geometry k).imp_of_mem fun {a b} ha _ h => .inl ?_
  rw [hlen ha]
  exact h

theorem read_advance_of_not_mem {i : Nat}
    (h : ∀ job ∈ sliceJobs m.geometry k, i < job.start m.geometry ∨ job.stop m.geometry ≤ i) :
    (m.advance k).read i = m.read i := by
  apply read_writeSegments_of_not_mem m
  intro s hs
  obtain ⟨job, hjob, rfl⟩ := List.mem_map.1 hs
  rw [length_segment hg (isWithin_of_mem_sliceJobs hjob)]
  exact h job hjob

/-- A block that is complete for a position of the slice stands after the slice as the segment of
the position sees it. -/
theorem read_advance_of_isCompleteAt (hjob : job ∈ sliceJobs m.geometry k)
    (hj : j < m.geometry.segmentLength) {i : Nat}
    (hc : m.geometry.IsCompleteAt (job.position j) i) : (m.advance k).read i = m.seenBy job i := by
  have hin := isWithin_of_mem_sliceJobs hjob
  by_cases h : job.start m.geometry ≤ i ∧ i < job.stop m.geometry
  · have hadd : job.start m.geometry + (i - job.start m.geometry) = i := by omega
    have hlt := SegmentJob.sub_start_lt h.1 h.2
    rw [← hadd, read_advance hg hjob hlt, seenBy_start_add hlt]
  · -- no other segment of the slice writes what is complete for a position of this one
    unfold seenBy
    rw [if_neg h]
    apply read_advance_of_not_mem hg
    intro other hother
    by_contra hmem
    have hlane : other.lane = job.lane :=
      SegmentJob.lane_eq_of_isCompleteAt hin (isWithin_of_mem_sliceJobs hother)
        ((mem_sliceJobs.1 hother).2.1.trans (mem_sliceJobs.1 hjob).2.1.symm) hj (by omega)
        (by omega) hc
    rw [eq_of_mem_sliceJobs hjob hother hlane] at hmem
    omega

/-- A slice whose segments are computed apart and then written. -/
theorem sliceStep_advance (k : Nat) : m.SliceStep k (m.advance k) := by
  refine ⟨geometry_advance m k, job_advance m k, ?_, ?_⟩
  · intro p hp
    have hlegal := hp.isLegal
    obtain ⟨job, hjob, j, hlo, hhi, rfl⟩ := Geometry.fills_iff.1 hp
    -- what the segment sees while it is computed is what stands there after the slice
    have hseen {i : Nat} (hc : m.geometry.IsCompleteAt (job.position j) i) :
        (m.advance k).read i = m.seenBy job i :=
      read_advance_of_isCompleteAt hg hjob hhi hc
    rw [SegmentJob.absolute_position, read_advance hg hjob hhi,
      segmentBlock_eq_derive hg (isWithin_of_mem_sliceJobs hjob) hlo hhi
        (hseen (Geometry.isComplete_previous hlegal)),
      ← hseen (Geometry.isComplete_reference hg hlegal _), ← binding_congr (job_advance m k)]
    unfold blockFor
    rw [geometry_advance]
  · intro i hi hkept
    by_cases h : ∃ job ∈ sliceJobs m.geometry k,
      job.start m.geometry ≤ i ∧ i < job.stop m.geometry
    · -- a block of a segment that is not derived is a seed
      obtain ⟨job, hjob, hlo, hhi⟩ := h
      have hlt := SegmentJob.sub_start_lt hlo hhi
      have hadd : job.start m.geometry + (i - job.start m.geometry) = i := by omega
      have hgiven : i - job.start m.geometry < job.given := by
        by_contra hge
        refine hkept (job.position (i - job.start m.geometry)) ?_
          (SegmentJob.absolute_position_sub hlo)
        exact Geometry.fills_iff.2 ⟨job, hjob, _, by omega, hlt, rfl⟩
      rw [← hadd, read_advance hg hjob hlt,
        segmentBlock_of_lt_given hg (isWithin_of_mem_sliceJobs hjob) hgiven]
    · apply read_advance_of_not_mem hg
      intro job hjob
      by_contra hmem
      exact h ⟨job, hjob, by omega⟩

/-- The segments of a slice may be computed apart or in place, with the lanes in any order. -/
theorem advance_eq_overwriteSlice {lanes : List Nat}
    (hl : lanes.Perm (List.range m.geometry.lanes)) (k : Nat) :
    m.advance k = m.overwriteSlice lanes k :=
  (sliceStep_advance hg k).unique hg (sliceStep_overwriteSlice hg hl k)

end

end Memory

end MemoryHard
