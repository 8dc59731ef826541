import MemoryHard.Proofs.Executor.Batches
import MemoryHard.Proofs.Memory.Segments

/-!
# MemoryHard.Proofs.Memory.Fill — what a fill makes of a memory

A fill goes from slice to slice.  On an executor that hands back true results if any, a slice that
passes is an `advance` of the memory, and one that stops leaves the memory as it was.

* `Fill.IsLeftAlone` — nobody calls a fill off while it runs;
* `slice_inv` — all that a slice can do;
* `slicesFrom_ok`, `exists_slicesFrom` — a run of slices: what it comes to if it passes, and when
  it does;
* `run_ok`, `exists_run` — the same for a whole fill.
-/

namespace MemoryHard

/-- Sixteen blocks in two lanes. -/
def Params.sixteen (passes : UInt32) : Params where
  lanes := 2
  memoryCost := 16
  passes := passes

namespace Fill

variable {f : Fill} {r r' : FillRun} {k count : Nat}

/-- Nobody calls the fill off while it runs: it does not look, or the flag is down and the
executor does not raise it. -/
def IsLeftAlone (f : Fill) (r : FillRun) : Prop :=
  f.watches = false ∨ r.cancelled = false ∧ f.executor.IsQuiet

theorem fault?_eq_none_iff {m : Memory} :
    f.fault? m = none ↔ f.params.fault? = none ∧ m.geometry = f.params.geometry := by
  unfold fault?
  cases h : f.params.fault? with
  | none => by_cases hg : m.geometry = f.params.geometry <;> simp [hg]
  | some fault => simp

theorem isRegular_of_fault? {m : Memory} (h : f.fault? m = none) : m.geometry.IsRegular := by
  obtain ⟨hp, hg⟩ := fault?_eq_none_iff.1 h
  exact hg ▸ Params.isRegular_geometry hp

/-! ## One slice -/

theorem writeSegments_map_segment (m : Memory) (k : Nat) :
    m.writeSegments ((sliceJobs m.geometry k).zip ((sliceJobs m.geometry k).map m.segment)) =
      m.advance k := by
  rw [← List.map_prod_left_eq_zip]
  rfl

/-- All that a slice can do: it stops with the memory as it was, or it advances the memory. -/
theorem slice_inv (he : f.executor.IsHonest) (r : FillRun) (k : Nat) :
    (∃ r' failure, f.slice r k = .error (r', failure) ∧ r'.memory = r.memory ∧
      r'.progress = .filling (k / slices) (k % slices)) ∨
    (∃ r', f.slice r k = .ok r' ∧ r'.memory = r.memory.advance k) := by
  unfold slice
  dsimp only
  split_ifs with hc
  · exact .inl ⟨_, _, rfl, rfl, rfl⟩
  · generalize hreply : f.executor.run r.calls (sliceJobs r.memory.geometry k)
      (fun job => some (r.memory.segment job)) = reply
    have hcases := he r.calls (sliceJobs r.memory.geometry k) r.memory.segment
    dsimp only at hcases
    rw [hreply] at hcases
    -- the executor fails, its results are too many or too few, or they are the true ones
    rcases hcases with ⟨failure, h⟩ | ⟨results, h, hlen⟩ | h
    · rw [h]
      exact .inl ⟨_, _, rfl, rfl, rfl⟩
    · rw [h]
      dsimp only
      rw [if_neg hlen]
      exact .inl ⟨_, _, rfl, rfl, rfl⟩
    · rw [h]
      dsimp only
      rw [if_pos (List.length_map _), writeSegments_map_segment]
      exact .inr ⟨_, rfl, rfl⟩

theorem slice_ok (he : f.executor.IsHonest) (h : f.slice r k = .ok r') :
    r'.memory = r.memory.advance k := by
  rcases slice_inv he r k with ⟨r₁, failure, h₁, -⟩ | ⟨r₁, h₁, hm⟩
  · rw [h₁] at h
    cases h
  · rw [h₁] at h
    cases h
    exact hm

theorem exists_slice (he : f.executor.ReturnsInOrder) (hl : f.IsLeftAlone r) (k : Nat) :
    ∃ r', f.slice r k = .ok r' ∧ f.IsLeftAlone r' := by
  have hc : (f.watches && r.cancelled) = false := by
    rcases hl with h | ⟨h, -⟩ <;> simp [h]
  have houtcome := he r.calls (sliceJobs r.memory.geometry k) r.memory.segment
  unfold slice
  dsimp only
  rw [hc, if_neg Bool.false_ne_true, houtcome]
  dsimp only
  rw [if_pos (List.length_map _)]
  refine ⟨_, rfl, ?_⟩
  rcases hl with h | ⟨h, hquiet⟩
  · exact .inl h
  · exact .inr ⟨by rw [h, hquiet]; rfl, hquiet⟩

/-- The work is called off by the executor and by nothing else. -/
theorem cancelled_slice (hq : f.executor.IsQuiet) (h : f.slice r k = .ok r') :
    r'.cancelled = r.cancelled := by
  unfold slice at h
  dsimp only at h
  split_ifs at h
  split at h
  · cases h
  · split_ifs at h
    cases h
    dsimp only
    rw [hq, Bool.or_false]

/-! ## All slices -/

theorem slicesFrom_ok (he : f.executor.IsHonest) (h : f.slicesFrom r k count = .ok r') :
    r'.memory = (List.range' k count).foldl Memory.advance r.memory := by
  induction count generalizing r k with
  | zero =>
    cases h
    rfl
  | succ count ih =>
    rw [slicesFrom] at h
    cases hs : f.slice r k with
    | error stop =>
      rw [hs] at h
      cases h
    | ok r₁ =>
      rw [hs] at h
      rw [ih h, slice_ok he hs, List.range'_succ, List.foldl_cons]

theorem exists_slicesFrom (he : f.executor.ReturnsInOrder) (hl : f.IsLeftAlone r) (k count : Nat) :
    ∃ r', f.slicesFrom r k count = .ok r' := by
  induction count generalizing r k with
  | zero => exact ⟨r, rfl⟩
  | succ count ih =>
    obtain ⟨r₁, hs, hl₁⟩ := exists_slice he hl k
    rw [slicesFrom, hs]
    exact ih hl₁ (k + 1)

theorem cancelled_slicesFrom (hq : f.executor.IsQuiet) (h : f.slicesFrom r k count = .ok r') :
    r'.cancelled = r.cancelled := by
  induction count generalizing r k with
  | zero =>
    cases h
    rfl
  | succ count ih =>
    rw [slicesFrom] at h
    cases hs : f.slice r k with
    | error stop =>
      rw [hs] at h
      cases h
    | ok r₁ =>
      rw [hs] at h
      exact (ih h).trans (cancelled_slice hq hs)

/-! ## The whole fill -/

theorem fill_ok (he : f.executor.IsHonest) (h : f.fill r = (r', .ok ())) :
    f.fault? r.memory = none ∧ r'.progress = .complete ∧
      r'.memory = (List.range (sliceCount r.memory.geometry)).foldl Memory.advance r.memory := by
  unfold fill at h
  split_ifs at h with hp
  · cases h
  cases hf : f.fault? r.memory with
  | some fault => simp [hf] at h
  | none =>
    rw [hf] at h
    cases hs : f.slicesFrom r 0 (sliceCount r.memory.geometry) with
    | error stop => simp [hs] at h
    | ok r₁ =>
      have hm := slicesFrom_ok he hs
      simp only [hs, Prod.mk.injEq, and_true] at h
      rw [← h, List.range_eq_range']
      exact ⟨rfl, rfl, hm⟩

theorem cancelled_fill (hq : f.executor.IsQuiet) (h : f.fill r = (r', .ok ())) :
    r'.cancelled = r.cancelled := by
  unfold fill at h
  split_ifs at h with hp
  · cases h
  cases hf : f.fault? r.memory with
  | some fault => simp [hf] at h
  | none =>
    rw [hf] at h
    cases hs : f.slicesFrom r 0 (sliceCount r.memory.geometry) with
    | error stop => simp [hs] at h
    | ok r₁ =>
      simp only [hs, Prod.mk.injEq, and_true] at h
      have hlow := cancelled_slicesFrom hq hs
      rw [← h]
      exact hlow

theorem exists_fill (he : f.executor.ReturnsInOrder) (hl : f.IsLeftAlone r)
    (hp : r.progress = .seeded) (hf : f.fault? r.memory = none) :
    ∃ r', f.fill r = (r', .ok ()) := by
  obtain ⟨r₁, hs⟩ := exists_slicesFrom he hl 0 (sliceCount r.memory.geometry)
  refine ⟨{ r₁ with progress := .complete }, ?_⟩
  unfold fill
  simp [hp, hf, hs]

section
variable [HashSuite] {inputs : HashInputs}

theorem run_ok (he : f.executor.IsHonest) (h : f.run r inputs = (r', .ok ())) :
    f.fault? r.memory = none ∧ r'.progress = .complete ∧
      r'.memory = (List.range (sliceCount r.memory.geometry)).foldl Memory.advance
        (r.memory.writeSeeds (prehash f.params inputs)) := by
  unfold run seed at h
  split_ifs at h with hp
  · cases h
  cases hf : f.fault? r.memory with
  | some fault => simp [hf] at h
  | none =>
    simp only [hf] at h
    obtain ⟨-, hcomplete, hm⟩ := fill_ok he h
    dsimp only at hm
    rw [Memory.geometry_writeSeeds] at hm
    exact ⟨rfl, hcomplete, hm⟩

theorem cancelled_run (hq : f.executor.IsQuiet) (h : f.run r inputs = (r', .ok ())) :
    r'.cancelled = r.cancelled := by
  unfold run seed at h
  split_ifs at h with hp
  · cases h
  cases hf : f.fault? r.memory with
  | some fault => simp [hf] at h
  | none =>
    simp only [hf] at h
    have hlow := cancelled_fill hq h
    exact hlow

theorem exists_run (he : f.executor.ReturnsInOrder) (hl : f.IsLeftAlone r)
    (hp : r.progress = .untouched) (hf : f.fault? r.memory = none) (inputs : HashInputs) :
    ∃ r', f.run r inputs = (r', .ok ()) := by
  unfold run seed
  simp only [hp, ne_eq, not_true, if_false, hf]
  refine exists_fill he hl rfl ?_
  rw [fault?_eq_none_iff] at hf ⊢
  exact ⟨hf.1, by rw [Memory.geometry_writeSeeds]; exact hf.2⟩

end

end Fill

end MemoryHard
