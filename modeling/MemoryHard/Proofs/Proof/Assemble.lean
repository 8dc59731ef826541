import MemoryHard.Proof.Search
import MemoryHard.Proofs.Commitment.Paths
import MemoryHard.Proofs.Memory.Contents
import MemoryHard.Proofs.Geometry.Window

/-!
# MemoryHard.Proofs.Proof.Assemble — the proof of a walk

A prover whose tree is built over its memory can reveal every block, so the proof of a walk is
never missing, and it is known what stands in it.

* `Prover.IsCommitted` — the tree is built over the memory;
* `Prover.IsReady` — what is more, the parameters fit them;
* `Prover.opening`, `Prover.stepAt`, `Prover.proofOf` — what is revealed, step by step;
* `IsCommitted.reveal?_eq`, `step?_eq`, `assemble_eq` — this is what is assembled.
-/

namespace MemoryHard

open MemoryHard.Bytes

namespace Prover

/-- The tree is built over the memory, for any challenge and with nodes of any width.  Whether
the parameters describe this memory does not matter here. -/
structure IsCommitted [HashSuite] (p : Prover) : Prop where
  isRegular : p.memory.geometry.IsRegular
  isOver : ∃ c width, p.tree.IsOver c width p.memory.blocks.toList

/-- The parameters describe a proof, the memory has their shape, and the tree is built over it. -/
structure IsReady [HashSuite] (p : Prover) : Prop where
  proofFault_eq : p.params.proofFault? = none
  geometry_eq : p.memory.geometry = p.params.geometry
  isOver : p.tree.IsOver p.challenge p.params.nodeWidth p.memory.blocks.toList

/-- What is revealed of a block. -/
def opening (p : Prover) (i : Nat) : Opening :=
  ⟨UInt32.ofNat i, (p.memory.read i).toBytes, (p.tree.path? i).getD ⟨[]⟩⟩

/-- The block that a block refers to. -/
def referenceOf (p : Prover) (i : Nat) : Nat :=
  p.memory.geometry.reference (p.memory.geometry.locate i) (p.memory.read (i - 1)).firstWord

/-- What is revealed for a visit. -/
def stepAt (p : Prover) (i : Nat) : Step :=
  if p.memory.geometry.isSeed i then ⟨p.opening i, none, none⟩
  else ⟨p.opening i, some (p.opening (i - 1)), some (p.opening (p.referenceOf i))⟩

/-- The proof of a walk. -/
def proofOf (p : Prover) (nonce : UInt32) (digest : WalkDigest) (visited : List Nat) : Proof :=
  ⟨nonce, p.tree.root, digest, visited.map p.stepAt⟩

theorem stepAt_of_isSeed {p : Prover} {i : Nat} (hs : p.memory.geometry.isSeed i = true) :
    p.stepAt i = ⟨p.opening i, none, none⟩ := by
  rw [stepAt, if_pos hs]

theorem stepAt_of_not_isSeed {p : Prover} {i : Nat} (hs : p.memory.geometry.isSeed i = false) :
    p.stepAt i =
      ⟨p.opening i, some (p.opening (i - 1)), some (p.opening (p.referenceOf i))⟩ := by
  rw [stepAt, hs]
  rfl

@[simp] theorem selected_stepAt (p : Prover) (i : Nat) : (p.stepAt i).selected = p.opening i := by
  unfold stepAt
  split <;> rfl

section
variable [HashSuite] {p : Prover} {i : Nat}

namespace IsCommitted

variable (h : p.IsCommitted)
include h

theorem toNat_ofNat (hi : i < p.memory.geometry.blockCount) : (UInt32.ofNat i).toNat = i :=
  UInt32.toNat_ofNat_of_lt' (Nat.lt_trans hi h.isRegular.blockCount_lt)

theorem index_opening (hi : i < p.memory.geometry.blockCount) : (p.opening i).index.toNat = i :=
  h.toNat_ofNat hi

omit [HashSuite] h in
theorem get?_eq (hi : i < p.memory.geometry.blockCount) :
    p.memory.get? i = some (p.memory.read i) :=
  Memory.get?_eq_some_read (by rwa [Memory.size_eq_blockCount])

theorem path?_opening (hi : i < p.memory.geometry.blockCount) :
    p.tree.path? i = some (p.opening i).path := by
  obtain ⟨c, width, hover⟩ := h.isOver
  have hlen : i < p.memory.blocks.toList.length := by
    rwa [Array.length_toList, p.memory.size_eq]
  unfold opening
  rw [hover.path?_eq hlen]
  rfl

theorem referenceOf_lt (hi : i < p.memory.geometry.blockCount)
    (hs : p.memory.geometry.isSeed i = false) : p.referenceOf i < p.memory.geometry.blockCount :=
  Geometry.reference_lt h.isRegular (Geometry.isLegal_locate h.isRegular hi hs) _

theorem reveal?_eq (hi : i < p.memory.geometry.blockCount) :
    p.reveal? i = some (p.opening i) := by
  have hword : word32? i = some (UInt32.ofNat i) :=
    if_pos (Nat.lt_trans hi h.isRegular.blockCount_lt)
  unfold reveal?
  rw [get?_eq hi, hword, h.path?_opening hi]
  rfl

theorem step?_eq (hi : i < p.memory.geometry.blockCount) : p.step? i = some (p.stepAt i) := by
  unfold step?
  rw [h.reveal?_eq hi]
  cases hs : p.memory.geometry.isSeed i with
  | true =>
    rw [stepAt_of_isSeed hs]
    simp [hs]
  | false =>
    have hprevious : i - 1 < p.memory.geometry.blockCount := by omega
    have hreference := h.reveal?_eq (h.referenceOf_lt hi hs)
    unfold referenceOf at hreference
    rw [stepAt_of_not_isSeed hs]
    simp only [Option.bind_eq_bind, Option.bind_some, hs, Bool.false_eq_true, if_false,
      get?_eq hprevious, h.reveal?_eq hprevious, hreference]
    rfl

/-- The proof of a walk is never missing. -/
theorem assemble_eq {visited : List Nat} (hv : ∀ i ∈ visited, i < p.memory.geometry.blockCount)
    (nonce : UInt32) (digest : WalkDigest) :
    p.assemble nonce digest visited = some (p.proofOf nonce digest visited) := by
  unfold assemble
  rw [mapM_eq_some_map fun i hi => h.step?_eq (hv i hi)]
  rfl

end IsCommitted

namespace IsReady

variable (h : p.IsReady)
include h

theorem isCommitted : p.IsCommitted where
  isRegular := by
    rw [h.geometry_eq]
    exact Params.isRegular_geometry (Params.proofFault?_eq_none_iff.1 h.proofFault_eq).1
  isOver := ⟨_, _, h.isOver⟩

theorem isRegular : p.memory.geometry.IsRegular := h.isCommitted.isRegular

theorem blockCount_eq : p.memory.geometry.blockCount = p.params.blockCount := by
  rw [h.geometry_eq, Params.geometry_blockCount]

theorem length_blocks : p.memory.blocks.toList.length = p.params.blockCount := by
  rw [Array.length_toList, p.memory.size_eq, h.blockCount_eq]

theorem index_opening (hi : i < p.params.blockCount) : (p.opening i).index.toNat = i :=
  h.isCommitted.index_opening (h.blockCount_eq ▸ hi)

theorem index_selected_stepAt (hi : i < p.params.blockCount) :
    (p.stepAt i).selected.index.toNat = i := by
  rw [selected_stepAt, h.index_opening hi]

theorem get?_eq (hi : i < p.params.blockCount) : p.memory.get? i = some (p.memory.read i) :=
  IsCommitted.get?_eq (h.blockCount_eq ▸ hi)

theorem path?_opening (hi : i < p.params.blockCount) :
    p.tree.path? i = some (p.opening i).path :=
  h.isCommitted.path?_opening (h.blockCount_eq ▸ hi)

theorem referenceOf_lt (hi : i < p.params.blockCount)
    (hs : p.memory.geometry.isSeed i = false) : p.referenceOf i < p.params.blockCount := by
  rw [← h.blockCount_eq] at hi ⊢
  exact h.isCommitted.referenceOf_lt hi hs

end IsReady

end

end Prover

end MemoryHard
