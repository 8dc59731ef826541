import MemoryHard.Proofs.Geometry.Checked

/-!
# MemoryHard.Proofs.Geometry.Reference — what a word can refer to

Whatever word it is drawn from, the reference of a position is a complete block that is neither
the block at work nor the one it chains from.  Which of the window it is depends on the low half of
the word alone: the larger the half, the older the block.

* `age_mono`, `getElem?_reverse_window` — the choice, counted from the newest block of the window;
* `reference_ne_absolute`, `reference_ne_previous` — what is never referred to;
* `IsDrawn` — what holds of a reference;
* `reference_from_window` — all of it, for any shape and any position where a block is derived.
-/

namespace MemoryHard.Geometry

variable {g : Geometry} {p : Position}

/-! ## The choice in the window -/

theorem age_mono (size : Nat) {r r' : Nat} (h : r ≤ r') : age size r ≤ age size r' := by
  unfold age
  apply Nat.div_le_div_right
  apply Nat.mul_le_mul_left
  exact Nat.div_le_div_right (Nat.mul_le_mul h h)

theorem length_window (g : Geometry) (p : Position) (own : Bool) :
    (g.window p own).length = g.windowSize p own := by
  simp [window, run]

/-- The age of a reference is its place in the window, counted from the newest block. -/
theorem getElem?_reverse_window (h2 : 2 ≤ g.segmentLength) (hp : p.IsLegal g) (own : Bool)
    {low : Nat} (hlow : low < UInt32.size) :
    (g.window p own).reverse[age (g.windowSize p own) low]? = some (g.pick p low own) := by
  have hlt := age_lt (windowSize_pos h2 hp own) hlow
  have hsub : g.windowSize p own - 1 - age (g.windowSize p own) low < g.windowSize p own := by omega
  rw [List.getElem?_reverse (by rwa [length_window]), length_window]
  simp [window, run, hsub, pick]

/-! ## The block that is drawn -/

theorem reference_div (hg : g.IsRegular) (word : UInt64) :
    g.reference p word / g.laneLength = g.referenceLane p word :=
  lane_mul_add_div _ (pick_lt hg _ _)

theorem reference_mod (hg : g.IsRegular) (word : UInt64) :
    g.reference p word % g.laneLength =
      g.pick p (word.toNat % UInt32.size) (g.reference p word / g.laneLength = p.lane) := by
  rw [reference_div hg]
  exact lane_mul_add_mod _ (pick_lt hg _ _)

/-- The block at work is not complete. -/
theorem reference_ne_absolute (hg : g.IsRegular) (hp : p.IsLegal g) (word : UInt64) :
    g.reference p word ≠ p.absolute g := by
  intro h
  have hcomplete := isComplete_reference hg hp word
  rw [h, isCompleteAt_absolute hp.isWithin hp.isWithin rfl] at hcomplete
  exact Nat.lt_irrefl _ hcomplete.2

/-- The block that a position chains from is left out of the window of its own lane. -/
theorem reference_ne_previous (hg : g.IsRegular) (hp : p.IsLegal g) (word : UInt64) :
    g.reference p word ≠ p.previous g := by
  intro h
  have hlane : g.reference p word / g.laneLength = p.lane := by rw [h, previous_div hp.isWithin]
  have hplace := reference_mod (p := p) hg word
  rw [decide_eq_true hlane] at hplace
  have hmem := pick_mem_window hg.two_le_segmentLength hp (word.toNat % UInt32.size) true
  refine ((mem_window_own hg.two_le_segmentLength hp).1 hmem).2.2 ?_
  rw [← hplace, ← hlane, div_mul_add_mod, h]

/-- What is found as the reference of a position: no step of the way to it leaves 64 bits, it is a
complete block other than the one at work and the one the position chains from, and its place in
its lane is picked by the low half of the word. -/
structure IsDrawn (g : Geometry) (p : Position) (word : UInt64) (i : Nat) : Prop where
  reference?_eq : g.reference? p word = some i
  lt_blockCount : i < g.blockCount
  ne_absolute : i ≠ p.absolute g
  ne_previous : i ≠ p.previous g
  isComplete : g.IsComplete p (i / g.laneLength) (i % g.laneLength)
  place_eq : i % g.laneLength = g.pick p (word.toNat % UInt32.size) (i / g.laneLength = p.lane)

theorem isDrawn_reference (hg : g.IsRegular) (hp : p.IsLegal g) (word : UInt64) :
    g.IsDrawn p word (g.reference p word) where
  reference?_eq := reference?_eq_some hp hg word
  lt_blockCount := reference_lt hg hp word
  ne_absolute := reference_ne_absolute hg hp word
  ne_previous := reference_ne_previous hg hp word
  isComplete := isComplete_reference hg hp word
  place_eq := reference_mod hg word

/-! ## All of it -/

/-- At every position where a block is derived, whatever the word, the way to the reference stays
within 64 bits and ends at a complete block, which is neither the block at work nor the one it
chains from.  The window of the own lane is all that is complete there but the block the position
chains from, the window of another lane all that is complete there, at the start of a segment
without the newest block.  In the window, counted from its newest block, the choice moves towards
the older ones as the low half of the word grows. -/
theorem reference_from_window (hlanes : 0 < g.lanes) (hsegment : 2 ≤ g.segmentLength)
    (hblocks : g.blockCount < UInt32.size) (hp : p.IsLegal g) :
    (∀ word : UInt64, g.IsDrawn p word (g.reference p word)) ∧
    (∀ place, place ∈ g.window p true ↔ place < g.laneLength ∧ g.IsComplete p p.lane place ∧
      p.lane * g.laneLength + place ≠ p.previous g) ∧
    ((p.pass = 0 → p.slice ≠ 0) → ∀ lane, lane ≠ p.lane → ∀ place,
      (place ∈ g.window p false ↔ place < g.laneLength ∧ g.IsComplete p lane place ∧
        (p.index = 0 → place ≠ g.newest p))) ∧
    ∀ own, (g.window p own).Nodup ∧ ∀ low < UInt32.size,
      (g.window p own).reverse[age (g.windowSize p own) low]? = some (g.pick p low own) ∧
      ∀ low' ≤ low, age (g.windowSize p own) low' ≤ age (g.windowSize p own) low := by
  refine ⟨fun word => ?_, fun place => mem_window_own hsegment hp,
    fun hf lane hl place => mem_window_other hsegment hp hf hl,
    fun own => ⟨nodup_window hp own, fun low hlow =>
      ⟨getElem?_reverse_window hsegment hp own hlow, fun low' hle => age_mono _ hle⟩⟩⟩
  -- the number of passes has no say in where a block refers to
  have hg : (⟨g.lanes, g.segmentLength, 1⟩ : Geometry).IsRegular :=
    ⟨hlanes, hsegment, Nat.one_pos, hblocks⟩
  obtain ⟨h1, h2, h3, h4, h5, h6⟩ := isDrawn_reference hg hp word
  exact ⟨h1, h2, h3, h4, h5, h6⟩

/-- The first block of the second pass, in the second of two lanes with eight blocks each. -/
theorem reference_from_window_sixteen :
    let g : Geometry := ⟨2, 2, 2⟩
    let p : Position := ⟨1, 1, 0, 0⟩
    0 < g.lanes ∧ 2 ≤ g.segmentLength ∧ g.blockCount < UInt32.size ∧ p.IsLegal g ∧
      g.IsDrawn p 0xffffffff (g.reference p 0xffffffff) ∧
      (∀ place, place ∈ g.window p true ↔ place < 8 ∧ g.IsComplete p 1 place ∧
        1 * 8 + place ≠ p.previous g) ∧
      (∀ place, place ∈ g.window p false ↔ place < 8 ∧ g.IsComplete p 0 place ∧
        (p.index = 0 → place ≠ g.newest p)) := by
  intro g p
  have hlanes : 0 < g.lanes := by decide
  have hsegment : 2 ≤ g.segmentLength := by decide
  have hblocks : g.blockCount < UInt32.size := by decide
  have hp : p.IsLegal g := by decide
  obtain ⟨hdrawn, hown, hother, -⟩ := reference_from_window hlanes hsegment hblocks hp
  exact ⟨hlanes, hsegment, hblocks, hp, hdrawn _, hown,
    hother (fun h => absurd h (by decide)) 0 (by decide)⟩

end MemoryHard.Geometry
