import MemoryHard.Geometry.Reference
import MemoryHard.Memory

/-!
# MemoryHard.Memory.Derived — blocks that follow from the others

After a single pass the blocks that a block was derived from are still in place.  So each block
can be told to be right or wrong by itself.

* `Memory.derivedAt` — the block that belongs at an index, given all others;
* `Memory.IsDerivedAt`, `Memory.IsDerived` — the block at an index is the right one, or all are.
-/

namespace MemoryHard

open MemoryHard.Bytes

namespace Memory

variable [HashSuite]

/-- The block that belongs at an index: a seed is drawn from the prehash, any other block is
derived from the one before it and from its reference, bound to `job` if there is one. -/
def derivedAt (m : Memory) (job : Option JobWords) (prehash : Bytes) (i : Nat) : Block :=
  let g := m.geometry
  if g.isSeed i then seedBlock prehash (i / g.laneLength) (i % g.laneLength)
  else
    let before := m.read (i - 1)
    let reference := m.read (g.reference (g.locate i) before.firstWord)
    Block.derive before reference none (job.map fun words => ⟨words, UInt64.ofNat i⟩)

/-- The block at an index is the one that belongs there. -/
def IsDerivedAt (m : Memory) (job : Option JobWords) (prehash : Bytes) (i : Nat) : Prop :=
  m.read i = m.derivedAt job prehash i

instance (m : Memory) (job : Option JobWords) (prehash : Bytes) (i : Nat) :
    Decidable (m.IsDerivedAt job prehash i) :=
  inferInstanceAs (Decidable (_ = _))

/-- Every block is the one that belongs in its place. -/
def IsDerived (m : Memory) (job : Option JobWords) (prehash : Bytes) : Prop :=
  ∀ i < m.geometry.blockCount, m.IsDerivedAt job prehash i

end Memory

end MemoryHard
