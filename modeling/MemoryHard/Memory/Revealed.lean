import MemoryHard.Block

/-!
# MemoryHard.Memory.Revealed — the part of a memory that is known

Whoever checks a proof knows the blocks that the proof reveals, and no others.

* `Revealed.insert` — reveals a block; one revealed before at the index gives way to it;
* `Revealed.get?` — the block at an index, if it is revealed;
* `Revealed.get?_insert` — what is known after a block is revealed.
-/

namespace MemoryHard

/-- Some blocks of a memory with their indices; an index occurs once. -/
structure Revealed where
  /-- Indices and blocks. -/
  entries : List (Nat × Block) := []

namespace Revealed

/-- The block at an index, if it is revealed. -/
def get? (r : Revealed) (i : Nat) : Option Block := r.entries.lookup i

/-- Whether the block at an index is revealed. -/
def contains (r : Revealed) (i : Nat) : Bool := (r.get? i).isSome

/-- Reveals a block. -/
def insert (r : Revealed) (i : Nat) (b : Block) : Revealed :=
  ⟨(i, b) :: r.entries.filter (·.1 ≠ i)⟩

/-- The number of blocks revealed. -/
def size (r : Revealed) : Nat := r.entries.length

/-- Whether no block is revealed. -/
def isEmpty (r : Revealed) : Bool := r.entries.isEmpty

theorem get?_insert (r : Revealed) (i j : Nat) (b : Block) :
    (r.insert i b).get? j = if j = i then some b else r.get? j := by
  have keep (es : List (Nat × Block)) (h : j ≠ i) :
      (es.filter fun e => decide (e.1 ≠ i)).lookup j = es.lookup j := by
    induction es with
    | nil => rfl
    | cons e es ih =>
      obtain ⟨k, c⟩ := e
      by_cases hk : k = i
      · have hj : (j == k) = false := by simp [hk, h]
        rw [List.filter_cons_of_neg (by simp [hk]), ih, List.lookup_cons, hj]
      · rw [List.filter_cons_of_pos (by simp [hk]), List.lookup_cons, List.lookup_cons, ih]
  by_cases h : j = i
  · simp [get?, insert, h]
  · have hj : (j == i) = false := by simp [h]
    simp only [get?, insert, List.lookup_cons, hj, keep _ h, h, if_false]

end Revealed

end MemoryHard
