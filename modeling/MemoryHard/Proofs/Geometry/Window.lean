import Mathlib.Data.List.Nodup
import Mathlib.Data.Nat.ModEq
import MemoryHard.Geometry.Reference
import MemoryHard.Proofs.Geometry.Complete

/-!
# MemoryHard.Proofs.Geometry.Window — a reference is drawn from the complete blocks

Counted around the end of a lane, the blocks that are complete for a position are a run: first the
slices that are done, then, in the own lane, what the slice at work has so far.  The window of a
position is that run.  Only the block the position chains from is left out, and at the start of a
segment the newest block of another lane.

* `run`, `mem_run_pred`, `mem_run_iff` — runs of places around the end of a lane;
* `settled`, `settled_cases`, `mem_run_settled` — the slices that are done, as a run;
* `mem_window_own`, `mem_window_other` — the window, place by place;
* `pick_mem_window`, `isComplete_reference` — what is drawn from it.
-/

namespace MemoryHard.Geometry

variable {g : Geometry} {p : Position} {own : Bool} {lane place n : Nat}

/-! ## Runs of places -/

/-- The places of a run of `n` blocks that begins at `start` and goes on from the beginning of the
lane when it reaches the end. -/
def run (g : Geometry) (start n : Nat) : List Nat :=
  (List.range n).map fun k => (start + k) % g.laneLength

theorem mem_run {start : Nat} :
    place ∈ g.run start n ↔ ∃ k < n, (start + k) % g.laneLength = place := by
  simp [run]

theorem eq_of_mod_eq {start length j k : Nat} (hj : j < length) (hk : k < length)
    (h : (start + j) % length = (start + k) % length) : j = k :=
  (Nat.ModEq.add_left_cancel' start h).eq_of_lt_of_lt hj hk

theorem nodup_run (start : Nat) (hn : n ≤ g.laneLength) : (g.run start n).Nodup := by
  refine List.Nodup.map_on ?_ List.nodup_range
  intro j hj k hk h
  rw [List.mem_range] at hj hk
  exact eq_of_mod_eq (Nat.lt_of_lt_of_le hj hn) (Nat.lt_of_lt_of_le hk hn) h

/-- Without its last block a run has all its places but one. -/
theorem mem_run_pred {start : Nat} (hpos : 0 < n) (hn : n ≤ g.laneLength) :
    place ∈ g.run start (n - 1) ↔
      place ∈ g.run start n ∧ place ≠ (start + (n - 1)) % g.laneLength := by
  simp only [mem_run]
  constructor
  · rintro ⟨k, hk, rfl⟩
    refine ⟨⟨k, by omega, rfl⟩, fun h => ?_⟩
    have := eq_of_mod_eq (by omega) (by omega) h
    omega
  · rintro ⟨⟨k, hk, rfl⟩, hlast⟩
    have hne : k ≠ n - 1 := fun h => hlast (by rw [h])
    exact ⟨k, by omega, rfl⟩

theorem mem_run_iff {start : Nat} (hstart : start ≤ g.laneLength) (hn : n ≤ g.laneLength)
    (hplace : place < g.laneLength) :
    place ∈ g.run start n ↔
      (start ≤ place ∧ place < start + n) ∨ place + g.laneLength < start + n := by
  rw [mem_run]
  constructor
  · rintro ⟨k, hk, rfl⟩
    -- the run may go on at the start of the lane
    rcases Nat.lt_or_ge (start + k) g.laneLength with hlt | hge
    · rw [Nat.mod_eq_of_lt hlt]
      omega
    · rw [Nat.mod_eq_sub_mod hge, Nat.mod_eq_of_lt (by omega)]
      omega
  · rintro (⟨hle, hlt⟩ | hlt)
    · refine ⟨place - start, by omega, ?_⟩
      rw [Nat.add_sub_cancel' hle, Nat.mod_eq_of_lt hplace]
    · refine ⟨place + g.laneLength - start, by omega, ?_⟩
      rw [Nat.add_sub_cancel' (by omega), Nat.add_mod_right, Nat.mod_eq_of_lt hplace]

/-! ## The slices that are done -/

/-- How many blocks of a lane stand in the slices that are done. -/
def settled (g : Geometry) (p : Position) : Nat :=
  if p.pass = 0 then p.slice * g.segmentLength else g.laneLength - g.segmentLength

theorem windowStart_le (hp : p.IsLegal g) : g.windowStart p ≤ g.laneLength := by
  unfold windowStart
  split_ifs
  · exact Nat.mul_le_mul_right _ hp.1
  · exact Nat.zero_le _

theorem settled_add_le (hp : p.IsLegal g) (hn : n ≤ g.segmentLength) :
    g.settled p + n ≤ g.laneLength := by
  have hnext : (p.slice + 1) * g.segmentLength ≤ g.laneLength := Nat.mul_le_mul_right _ hp.1
  have hlane := g.laneLength_eq
  rw [Nat.succ_mul] at hnext
  unfold settled
  split_ifs <;> omega

/-- The slices that are done begin with the lane, or else behind the slice at work, and then they go
on around the end of the lane. -/
theorem settled_cases (g : Geometry) (p : Position) :
    (g.windowStart p = 0 ∧ g.settled p = p.slice * g.segmentLength ∧
      (p.pass ≠ 0 → p.slice * g.segmentLength + g.segmentLength = g.laneLength)) ∨
    (p.pass ≠ 0 ∧ g.windowStart p = p.slice * g.segmentLength + g.segmentLength ∧
      g.settled p + g.segmentLength = g.laneLength) := by
  have hlane := g.laneLength_eq
  unfold windowStart settled
  rw [Nat.succ_mul]
  by_cases h0 : p.pass = 0
  · rw [if_neg fun h => h.1 h0, if_pos h0]
    exact .inl ⟨rfl, rfl, fun h => absurd h0 h⟩
  · rw [if_neg h0]
    -- behind the last slice the lane begins anew
    by_cases hlast : p.slice = slices - 1
    · have h3 : p.slice * g.segmentLength = 3 * g.segmentLength := by rw [hlast]; rfl
      rw [if_neg fun h => h.2 hlast]
      omega
    · rw [if_pos ⟨h0, hlast⟩]
      exact .inr ⟨h0, rfl, by omega⟩

/-- The last of the slices that are done and of the first `n` blocks of the slice at work. -/
theorem last_settled (n : Nat) (hpos : 0 < g.settled p + n) :
    (g.windowStart p + (g.settled p + n - 1)) % g.laneLength =
      (p.slice * g.segmentLength + n + g.laneLength - 1) % g.laneLength := by
  rcases settled_cases g p with ⟨hstart, hsettled, -⟩ | ⟨-, hstart, hsettled⟩
  · have hsum : p.slice * g.segmentLength + n + g.laneLength - 1 =
        g.windowStart p + (g.settled p + n - 1) + g.laneLength := by omega
    rw [hsum, Nat.add_mod_right]
  · have hsum : p.slice * g.segmentLength + n + g.laneLength - 1 =
        g.windowStart p + (g.settled p + n - 1) := by omega
    rw [hsum]

/-- The slices that are done and the first `n` blocks of the slice at work are a run. -/
theorem mem_run_settled (hp : p.IsLegal g) (hn : n ≤ g.segmentLength)
    (hplace : place < g.laneLength) :
    place ∈ g.run (g.windowStart p) (g.settled p + n) ↔
      place < p.slice * g.segmentLength + n ∨
        (p.pass ≠ 0 ∧ (p.slice + 1) * g.segmentLength ≤ place) := by
  have hnext : (p.slice + 1) * g.segmentLength ≤ g.laneLength := Nat.mul_le_mul_right _ hp.1
  rw [mem_run_iff (windowStart_le hp) (settled_add_le hp hn) hplace]
  rw [Nat.succ_mul] at hnext ⊢
  rcases settled_cases g p with ⟨hstart, hsettled, hlast⟩ | ⟨hpass, hstart, hsettled⟩ <;> omega

theorem mem_run_settled_own (hp : p.IsLegal g) (hplace : place < g.laneLength) :
    place ∈ g.run (g.windowStart p) (g.settled p + p.index) ↔ g.IsComplete p p.lane place := by
  rw [mem_run_settled hp (Nat.le_of_lt hp.2.2.1) hplace, isComplete_iff hp.2.2.1]
  unfold Position.place
  omega

theorem mem_run_settled_other (hp : p.IsLegal g) (hplace : place < g.laneLength)
    (hl : lane ≠ p.lane) :
    place ∈ g.run (g.windowStart p) (g.settled p) ↔ g.IsComplete p lane place := by
  have h := mem_run_settled hp (Nat.zero_le _) hplace
  rw [Nat.add_zero, Nat.add_zero] at h
  rw [h, isComplete_iff hp.2.2.1]
  omega

/-! ## The window -/

/-- The places of a lane, the own one or another, that a position may refer to. -/
def window (g : Geometry) (p : Position) (own : Bool) : List Nat :=
  g.run (g.windowStart p) (g.windowSize p own)

theorem windowSize_own (g : Geometry) (p : Position) :
    g.windowSize p true = g.settled p + p.index - 1 := by
  unfold windowSize settled
  dsimp only
  by_cases h0 : p.pass = 0 <;> by_cases hs : p.slice = 0 <;> simp [h0, hs]

theorem windowSize_other (hf : p.pass = 0 → p.slice ≠ 0) :
    g.windowSize p false = if p.index = 0 then g.settled p - 1 else g.settled p := by
  unfold windowSize settled
  dsimp only
  by_cases h0 : p.pass = 0
  · simp [h0, hf h0]
  · simp [h0]

/-- In the first slice of all there is nothing to see in other lanes. -/
theorem windowSize_pos (h2 : 2 ≤ g.segmentLength) (hp : p.IsLegal g) (own : Bool) :
    0 < g.windowSize p own := by
  obtain ⟨-, -, hi, hseed⟩ := hp
  have hlane := g.laneLength_eq
  have hle (h : p.slice ≠ 0) : g.segmentLength ≤ p.slice * g.segmentLength :=
    Nat.le_mul_of_pos_left _ (Nat.pos_of_ne_zero h)
  unfold windowSize
  dsimp only
  by_cases hs : p.slice = 0
  · split_ifs <;> omega
  · have := hle hs
    split_ifs <;> omega

theorem windowSize_lt (hp : p.IsLegal g) (own : Bool) : g.windowSize p own < g.laneLength := by
  have hslice := Position.place_lt hp.isWithin
  have hindex := hp.2.2.1
  have hlane := g.laneLength_eq
  unfold Position.place at hslice
  unfold windowSize
  dsimp only
  split_ifs <;> omega

theorem nodup_window (hp : p.IsLegal g) (own : Bool) : (g.window p own).Nodup :=
  nodup_run _ (Nat.le_of_lt (windowSize_lt hp own))

theorem lt_of_mem_window (hp : p.IsLegal g) (h : place ∈ g.window p own) :
    place < g.laneLength := by
  obtain ⟨k, hk, rfl⟩ := mem_run.1 h
  exact Nat.mod_lt _ (Nat.zero_lt_of_lt (windowSize_lt hp own))

/-- Of its own lane a position may refer to every block that is complete but the one it chains
from. -/
theorem mem_window_own (h2 : 2 ≤ g.segmentLength) (hp : p.IsLegal g) :
    place ∈ g.window p true ↔ place < g.laneLength ∧ g.IsComplete p p.lane place ∧
      p.lane * g.laneLength + place ≠ p.previous g := by
  by_cases hplace : place < g.laneLength
  · have hpos := windowSize_pos h2 hp true
    have hle := settled_add_le hp (Nat.le_of_lt hp.2.2.1)
    rw [windowSize_own] at hpos
    rw [window, windowSize_own, mem_run_pred (by omega) hle, mem_run_settled_own hp hplace,
      last_settled p.index (by omega), previous_eq_mod hp.isWithin, ne_eq, ne_eq,
      Nat.add_left_cancel_iff, Position.place]
    simp only [hplace, true_and]
  · exact iff_of_false (fun h => hplace (lt_of_mem_window hp h)) (fun h => hplace h.1)

/-- Of another lane a position may refer to every block that is complete, but at the start of a
segment not to the newest of them. -/
theorem mem_window_other (h2 : 2 ≤ g.segmentLength) (hp : p.IsLegal g)
    (hf : p.pass = 0 → p.slice ≠ 0) (hl : lane ≠ p.lane) :
    place ∈ g.window p false ↔ place < g.laneLength ∧ g.IsComplete p lane place ∧
      (p.index = 0 → place ≠ g.newest p) := by
  by_cases hplace : place < g.laneLength
  · have hpos := windowSize_pos h2 hp false
    have hle : g.settled p ≤ g.laneLength := settled_add_le hp (Nat.zero_le _)
    rw [windowSize_other hf] at hpos
    rw [window, windowSize_other hf]
    split_ifs at hpos ⊢ with hindex
    · have hlast : (g.windowStart p + (g.settled p - 1)) % g.laneLength = g.newest p :=
        last_settled 0 (by omega)
      rw [mem_run_pred (by omega) hle, mem_run_settled_other hp hplace hl, hlast]
      simp only [hplace, hindex, true_and, true_implies]
    · rw [mem_run_settled_other hp hplace hl]
      simp only [hplace, hindex, false_implies, true_and, and_true]
  · exact iff_of_false (fun h => hplace (lt_of_mem_window hp h)) (fun h => hplace h.1)

/-! ## The reference -/

theorem age_lt {size r : Nat} (hs : 0 < size) (hr : r < UInt32.size) : age size r < size := by
  have h1 : r * r / UInt32.size < UInt32.size := by
    apply Nat.div_lt_of_lt_mul
    exact Nat.mul_lt_mul'' hr hr
  unfold age
  apply Nat.div_lt_of_lt_mul
  rw [Nat.mul_comm]
  exact Nat.mul_lt_mul_of_pos_right h1 hs

theorem pick_mem_window (h2 : 2 ≤ g.segmentLength) (hp : p.IsLegal g) (low : Nat) (own : Bool) :
    g.pick p low own ∈ g.window p own := by
  have hpos := windowSize_pos h2 hp own
  exact mem_run.2 ⟨_, by omega, rfl⟩

theorem pick_lt (hg : g.IsRegular) (low : Nat) (own : Bool) : g.pick p low own < g.laneLength :=
  Nat.mod_lt _ hg.laneLength_pos

theorem isComplete_pick (hg : g.IsRegular) (hp : p.IsLegal g) (low : Nat)
    (hf : lane ≠ p.lane → p.pass = 0 → p.slice ≠ 0) :
    g.IsComplete p lane (g.pick p low (lane = p.lane)) := by
  have h2 := hg.two_le_segmentLength
  have hmem := pick_mem_window h2 hp low (decide (lane = p.lane))
  by_cases hl : lane = p.lane
  · rw [decide_eq_true hl] at hmem ⊢
    rw [hl]
    exact ((mem_window_own h2 hp).1 hmem).2.1
  · rw [decide_eq_false hl] at hmem ⊢
    exact ((mem_window_other h2 hp (hf hl) hl).1 hmem).2.1

theorem referenceLane_lt (hg : g.IsRegular) (hp : p.IsLegal g) (word : UInt64) :
    g.referenceLane p word < g.lanes := by
  unfold referenceLane
  split_ifs
  · exact hp.2.1
  · exact Nat.mod_lt _ hg.lanes_pos

/-- In the first slice of all the reference is in the own lane. -/
theorem slice_ne_of_referenceLane_ne {word : UInt64} (h : g.referenceLane p word ≠ p.lane)
    (h0 : p.pass = 0) : p.slice ≠ 0 :=
  fun hs => h (if_pos ⟨h0, hs⟩)

theorem reference_lt (hg : g.IsRegular) (hp : p.IsLegal g) (word : UInt64) :
    g.reference p word < g.blockCount :=
  lane_mul_add_lt (referenceLane_lt hg hp word) (pick_lt hg _ _)

theorem isComplete_reference (hg : g.IsRegular) (hp : p.IsLegal g) (word : UInt64) :
    g.IsCompleteAt p (g.reference p word) := by
  unfold reference
  rw [isCompleteAt_mul_add (pick_lt hg _ _)]
  exact isComplete_pick hg hp _ slice_ne_of_referenceLane_ne

end MemoryHard.Geometry
