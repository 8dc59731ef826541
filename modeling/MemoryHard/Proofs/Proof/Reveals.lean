import Mathlib.Data.List.Forall2
import MemoryHard.Proofs.Memory.Derivation
import MemoryHard.Proofs.Proof.Parallel
import MemoryHard.Proofs.Proof.Soundness

/-!
# MemoryHard.Proofs.Proof.Reveals — what a proof reveals of the memory

The proof of a walk reveals, visit by visit and in the order of the walk, the block that is visited,
and the two blocks it is derived from unless it is a seed.  All of them are shown as they stand in
the memory, each with its path.  Nothing on the way to such a proof can be missing, whatever stands
in the memory and wherever the walk goes.

* `Prover.Opens` — an opening is that of the block at an index;
* `Prover.Reveals` — what is revealed for a visit;
* `IsCommitted.opens_opening`, `IsCommitted.reveals_stepAt` — a prover reveals just this;
* `Prover.assemble_reveals` — the whole proof.
-/

namespace MemoryHard

open MemoryHard.Bytes

/-- The block before one that is no seed stands in the same lane. -/
theorem Geometry.pred_div {g : Geometry} (hg : g.IsRegular) {i : Nat} (hi : i < g.blockCount)
    (hs : g.isSeed i = false) : (i - 1) / g.laneLength = i / g.laneLength := by
  rw [← previous_locate hg hi hs, previous_div (isWithin_locate hg hi)]
  rfl

namespace Prover

section
variable {p : Prover} {i : Nat}

/-- An opening is that of the block at an index, as it stands in the memory and in the tree. -/
structure Opens (p : Prover) (o : Opening) (i : Nat) : Prop where
  index_eq : o.index.toNat = i
  isTrue : o.IsTrue p.memory p.tree

/-- What is revealed for a visit: the block, and unless it is a seed the one before it in its lane
and the one that the first word of that refers to. -/
structure Reveals (p : Prover) (step : Step) (i : Nat) : Prop where
  opens_selected : p.Opens step.selected i
  eq_none_iff : step.previous = none ∧ step.reference = none ↔
    p.memory.geometry.isSeed i = true
  exists_antecedents : p.memory.geometry.isSeed i = false →
    ∃ previous reference, step.previous = some previous ∧ step.reference = some reference ∧
      p.Opens previous (i - 1) ∧
      (i - 1) / p.memory.geometry.laneLength = i / p.memory.geometry.laneLength ∧
      p.Opens reference (p.memory.geometry.reference (p.memory.geometry.locate i)
        (p.memory.read (i - 1)).firstWord)

variable [HashSuite]

namespace IsCommitted

variable (h : p.IsCommitted)
include h

theorem opens_opening (hi : i < p.memory.geometry.blockCount) : p.Opens (p.opening i) i := by
  have hindex := h.index_opening hi
  refine ⟨hindex, ?_, ?_, ?_⟩
  · rw [hindex]
    exact get?_eq hi
  · rw [hindex]
    rfl
  · rw [hindex]
    exact h.path?_opening hi

theorem reveals_stepAt (hi : i < p.memory.geometry.blockCount) : p.Reveals (p.stepAt i) i := by
  cases hs : p.memory.geometry.isSeed i with
  | true =>
    rw [stepAt_of_isSeed hs]
    exact ⟨h.opens_opening hi, iff_of_true ⟨rfl, rfl⟩ hs, fun hno => absurd (hs.symm.trans hno)
      (by decide)⟩
  | false =>
    rw [stepAt_of_not_isSeed hs]
    refine ⟨h.opens_opening hi, iff_of_false (fun hnone => nomatch hnone.1) ?_, fun _ => ?_⟩
    · rw [hs]
      exact Bool.false_ne_true
    · exact ⟨_, _, rfl, rfl, h.opens_opening (Nat.lt_of_le_of_lt (Nat.sub_le i 1) hi),
        Geometry.pred_div h.isRegular hi hs, h.opens_opening (h.referenceOf_lt hi hs)⟩

end IsCommitted

/-- Over a memory of any valid shape and with any contents, with the tree over it: the proof of a
walk that ends is never missing.  It has the nonce and the digest of the walk and the root of the
tree, and it reveals what is visited, step by step. -/
theorem assemble_reveals (h : p.IsOverMemory) {nonce : UInt32} {visited : List Nat}
    {digest : WalkDigest} (hw : p.walk nonce = (visited, some digest)) :
    ∃ proof, p.assemble nonce digest visited = some proof ∧ proof.nonce = nonce ∧
      proof.digest = digest ∧ proof.root = p.tree.root ∧
      List.Forall₂ p.Reveals proof.steps visited := by
  have hc := h.isCommitted
  have hlt := IsCommitted.visited_lt hw
  refine ⟨p.proofOf nonce digest visited, hc.assemble_eq hlt nonce digest, rfl, rfl, rfl, ?_⟩
  show List.Forall₂ p.Reveals (visited.map p.stepAt) visited
  rw [List.forall₂_map_left_iff, List.forall₂_same]
  exact fun i hi => hc.reveals_stepAt (hlt i hi)

end

/-- Sixteen blocks of zeros but one, in a memory for three passes, with a tree for another job. -/
theorem assemble_reveals_sixteen :
    let m : Memory := (Memory.ofGeometry (Params.sixteen 3).geometry none).write 5
      ⟨Vector.replicate 128 1⟩
    ∃ (t : HashTree) (visited : List Nat) (digest : WalkDigest) (proof : Proof),
      let p : Prover := ⟨.sixteen 1, .ofHeader [1, 2, 3], m, t⟩
      p.IsOverMemory ∧ p.walk 0 = (visited, some digest) ∧
        p.assemble 0 digest visited = some proof ∧ proof.root = t.root ∧
        List.Forall₂ p.Reveals proof.steps visited := by
  intro m
  have hq : (Params.sixteen 3).validate = .ok () := by decide
  obtain ⟨t, ht⟩ := HashTree.exists_build (p := .sixteen 3) (by decide) (m := m) rfl
    (.ofHeader [4, 5, 6])
  let p : Prover := ⟨.sixteen 1, .ofHeader [1, 2, 3], m, t⟩
  have hp : p.IsOverMemory := ⟨⟨.sixteen 3, hq, rfl⟩, _, _, _, ht⟩
  obtain ⟨visited, digest, hw⟩ : ∃ visited digest, p.walk 0 = (visited, some digest) := by
    refine exists_walkFrom (show 0 < (Params.sixteen 1).blockCount by decide) (fun i hi => ?_) _ _
    have hcount : (Params.sixteen 1).blockCount = (Params.sixteen 3).geometry.blockCount := by
      decide
    rw [IsCommitted.get?_eq (show i < p.memory.geometry.blockCount from hcount ▸ hi)]
    rfl
  obtain ⟨proof, hproof, -, -, hroot, hreveals⟩ := assemble_reveals hp hw
  exact ⟨t, visited, digest, proof, hp, hw, hproof, hroot, hreveals⟩

end Prover

end MemoryHard
