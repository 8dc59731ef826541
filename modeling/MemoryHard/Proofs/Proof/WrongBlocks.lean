import MemoryHard.Proofs.Proof.Completeness

/-!
# MemoryHard.Proofs.Proof.WrongBlocks — proofs over a memory that was not filled

A prover may commit to any memory at all.  As long as the tree is built over it, the proofs found
pass all that is checked before the derivations, and then the blocks visited decide: the first of
them that is not the one derived in its place is named.

* `isReady_of_ofBlocks` — any memory of the right shape with its tree makes a prover;
* `verify_iff_of_search` — the verdict on what is found over any memory.
-/

namespace MemoryHard

section
variable [HashSuite] {p : Params} {c : Challenge} {m : Memory} {t : HashTree} {jobs : Nat}

theorem Prover.isReady_of_ofBlocks (hp : p.validateForProof = .ok ()) (hm : m.geometry = p.geometry)
    (ht : HashTree.ofBlocks p.nodeWidth c m.blocks.toList jobs = .ok t) :
    (⟨p, c, m, t⟩ : Prover).IsReady where
  proofFault_eq := Params.validateForProof_eq_ok_iff.1 hp
  geometry_eq := hm
  isOver := HashTree.isOver_of_ofBlocks ht

/-- Whatever blocks a memory holds, the walk of a proof that is found over it visits the blocks of
its steps.  The proof is accepted if they all are the ones derived in their places, and otherwise
rejected for the first that is not, and for nothing else. -/
theorem verify_iff_of_search {header : Bytes} {target : Target} {start stop : UInt32}
    {proof : Proof} (hp : p.validateForProof = .ok ()) (hm : m.geometry = p.geometry)
    (ht : HashTree.ofBlocks p.nodeWidth (.ofHeader header) m.blocks.toList jobs = .ok t)
    (hs : (∃ cancelled, (⟨p, .ofHeader header, m, t⟩ : Prover).search target start stop
        cancelled = .ok (some proof)) ∨
      ∃ schedule, ((Race.start (nonceChunks p.jobs.toNat start.toNat stop.toNat)).run
        ⟨p, .ofHeader header, m, t⟩ target schedule).outcome = .ok (some proof)) :
    let visited := proof.selectedIndices.map UInt32.toNat
    let IsRight (i : Nat) : Prop := m.IsDerivedAt (some (Challenge.ofHeader header).jobWords)
      (prehash p (.ofHeader header)) i
    walk m.get? p (.ofHeader header) t.root proof.nonce = (visited, some proof.digest) ∧
    (proof.verify p header target = .ok () ↔ ∀ i ∈ visited, IsRight i) ∧
    ∀ rejection, proof.verify p header target = .error rejection ↔ ∃ before i after,
      visited = before ++ i :: after ∧ (∀ j ∈ before, IsRight j) ∧ ¬IsRight i ∧
        rejection = .derivationMismatch i := by
  intro visited IsRight
  have hready := Prover.isReady_of_ofBlocks hp hm ht
  have hwin : (⟨p, .ofHeader header, m, t⟩ : Prover).IsWinning target proof := by
    rcases hs with ⟨cancelled, hs⟩ | ⟨schedule, hs⟩
    · exact Prover.isWinning_of_search hs
    · exact Race.isWinning_of_outcome hs
  obtain ⟨nonce, indices, digest, hwalk, hmet, rfl⟩ := hready.isWinning_iff.1 hwin
  have hvisited : visited = indices :=
    hready.selectedIndices_proofOf (hready.visited_lt hwalk)
  rw [hready.verify_proofOf rfl hwalk hmet, hvisited]
  exact ⟨hwalk, Prover.verdict_eq_ok_iff, fun rejection => Prover.verdict_eq_error_iff⟩

end

/-- A proof over sixteen blocks of zeros. -/
theorem verify_iff_of_search_sixteen :
    let p : Params := .sixteen 1
    let c : Challenge := .ofHeader [1, 2, 3]
    let m : Memory := .ofGeometry p.geometry none
    ∃ t proof, HashTree.ofBlocks p.nodeWidth c m.blocks.toList 1 = .ok t ∧
      (⟨p, c, m, t⟩ : Prover).search .easiest 0 1 false = .ok (some proof) ∧
      (proof.verify p [1, 2, 3] .easiest = .ok () ↔
        ∀ i ∈ proof.selectedIndices.map UInt32.toNat,
          m.IsDerivedAt (some c.jobWords) (prehash p (.ofHeader [1, 2, 3])) i) := by
  intro p c m
  have hfault : p.proofFault? = none := by decide
  have hp := Params.validateForProof_eq_ok_iff.2 hfault
  obtain ⟨t, ht⟩ := HashTree.exists_build (p := p) (by decide) (m := m) rfl c
  have ht' : HashTree.ofBlocks p.nodeWidth c m.blocks.toList 1 = .ok t := ht
  have hready := Prover.isReady_of_ofBlocks hp rfl ht'
  have hroom : p.walkFits = true := by decide
  obtain ⟨proof, hs⟩ := hready.exists_search hroom (show (0 : UInt32) < 1 by decide)
  obtain ⟨-, hiff, -⟩ := verify_iff_of_search hp rfl ht' (.inl ⟨false, hs⟩)
  exact ⟨t, proof, ht', hs, hiff⟩

end MemoryHard
