import MemoryHard.Proof.Collision
import MemoryHard.Proofs.Commitment.Binding
import MemoryHard.Proofs.Proof.Completeness

/-!
# MemoryHard.Proofs.Proof.Soundness — what is accepted is true of the memory

Whoever checks a proof never sees the memory behind the root.  Still, if the proof is accepted,
every block it reveals is the block of the memory, the walk is the walk over the memory, and the
blocks visited are derived in the memory, unless a collision is met among the messages hashed.

* `Opening.IsTrue` — an opening shows the block of a memory and its path;
* `isTrue_or_collision` — what is accepted as an opening is true;
* `isDerivedAt_of_checkStep` — what is derived from true blocks is derived in the memory;
* `memory_or_collision_of_verify` — the whole proof.
-/

namespace MemoryHard

open MemoryHard.Bytes

/-- An opening shows the block of a memory and the path that the tree gives for it. -/
structure Opening.IsTrue (o : Opening) (m : Memory) (t : HashTree) : Prop where
  get?_eq : m.get? o.index.toNat = some (m.read o.index.toNat)
  block_eq : o.block = (m.read o.index.toNat).toBytes
  path_eq : t.path? o.index.toNat = some o.path

section
variable [HashSuite] {p : Params} {c : Challenge} {m : Memory} {t : HashTree}

/-- An opening that is accepted is true, or a collision is met. -/
theorem Opening.isTrue_or_collision {o : Opening} {block : Block} (hm : m.geometry = p.geometry)
    (ht : t.IsOver c p.nodeWidth m.blocks.toList) (h : o.check p c t.root = .ok block) :
    (o.IsTrue m t ∧ block = m.read o.index.toNat) ∨
      Collision p.nodeWidth
        (HashTree.messages c p.nodeWidth m.blocks.toList ++ o.messages c p.nodeWidth) := by
  obtain ⟨-, hblock, hverify⟩ := check_eq_ok_iff.1 h
  have hcount : p.blockCount = m.blocks.toList.length := by
    rw [Array.length_toList, m.size_eq, hm, Params.geometry_blockCount]
  rw [hcount] at hverify
  rcases ht.path_eq_or_collision hverify with ⟨hget, hpath⟩ | hcollision
  · rw [Array.getElem?_toList] at hget
    obtain ⟨-, hread⟩ := Memory.get?_eq_some_iff.1 hget
    refine .inl ⟨⟨?_, ?_, hpath⟩, hread.symm⟩
    · rw [hread]
      exact hget
    · rw [hread]
      exact Block.ofBytes?_eq_some_iff.1 hblock
  · rw [messages, hblock]
    exact .inr hcollision

namespace Proof

variable {proof : Proof} {known : Revealed}

omit [HashSuite] in
theorem mem_openings {step : Step} (hs : step ∈ proof.steps) {o : Opening}
    (ho : o ∈ step.openings) : o ∈ proof.steps.flatMap Step.openings :=
  List.mem_flatMap.2 ⟨step, hs, ho⟩

/-- If all openings are accepted, they are all true, and known is what the memory holds at their
indices, or a collision is met. -/
theorem isTrue_or_collision_of_revealAll (hm : m.geometry = p.geometry)
    (ht : t.IsOver c p.nodeWidth m.blocks.toList) (hroot : proof.root = t.root)
    (h : proof.revealAll p c = .ok known) :
    (∀ o ∈ proof.steps.flatMap Step.openings, o.IsTrue m t ∧
        known.get? o.index.toNat = some (m.read o.index.toNat)) ∨
      Collision p.nodeWidth (HashTree.messages c p.nodeWidth m.blocks.toList ++
        proof.messages c p.nodeWidth) := by
  by_cases hcollision : Collision p.nodeWidth (HashTree.messages c p.nodeWidth m.blocks.toList ++
      proof.messages c p.nodeWidth)
  · exact .inr hcollision
  · refine .inl ?_
    unfold revealAll at h
    rw [hroot] at h
    have htrue : ∀ o ∈ proof.steps.flatMap Step.openings, o.IsTrue m t ∧
        o.check p c t.root = .ok (m.read o.index.toNat) := by
      intro o ho
      obtain ⟨block, hcheck⟩ := check_of_revealOpenings h o ho
      rcases Opening.isTrue_or_collision hm ht hcheck with ⟨htrue, hblock⟩ | hfound
      · exact ⟨htrue, hblock ▸ hcheck⟩
      · refine absurd (hfound.mono ?_) hcollision
        have hsub : o.messages c p.nodeWidth ⊆ proof.messages c p.nodeWidth :=
          fun x hx => List.mem_flatMap.2 ⟨o, ho, hx⟩
        exact List.append_subset.2 ⟨List.subset_append_left _ _,
          List.subset_append_of_subset_right _ hsub⟩
    -- an index that occurs twice shows the same block both times
    obtain ⟨known', hknown', hget, -⟩ := revealOpenings_eq_ok (fun o ho => (htrue o ho).2) {}
    cases h.symm.trans hknown'
    exact fun o ho => ⟨(htrue o ho).1, hget o ho⟩

/-- A step whose openings are true of a memory is accepted only if the block it visits is the one
derived in the memory. -/
theorem isDerivedAt_of_checkStep {h0 : Bytes} {job : JobWords} {step : Step}
    (hm : m.geometry = p.geometry)
    (hknown : ∀ o ∈ step.openings, known.get? o.index.toNat = some (m.read o.index.toNat))
    (h : checkStep p h0 job known step = .ok ()) :
    m.IsDerivedAt (some job) h0 step.selected.index.toNat := by
  obtain ⟨block, hselected, hderived⟩ := checkStep_eq_ok_iff.1 h
  rw [hknown _ List.mem_cons_self] at hselected
  cases hselected
  unfold Memory.IsDerivedAt Memory.derivedAt
  unfold derivedBlock at hderived
  dsimp only at hderived ⊢
  rw [hm]
  cases hs : p.geometry.isSeed step.selected.index.toNat with
  | true =>
    rw [hs] at hderived
    exact (Except.ok.inj hderived).symm
  | false =>
    rw [hs, if_neg Bool.false_ne_true] at hderived
    cases hprevious : step.previous with
    | none => simp [hprevious] at hderived
    | some previous =>
      cases hreference : step.reference with
      | none => simp [hprevious, hreference] at hderived
      | some reference =>
        have hbefore := hknown previous (by simp [Step.openings, hprevious])
        have hother := hknown reference (by simp [Step.openings, hreference])
        rw [hprevious, hreference] at hderived
        dsimp only at hderived
        rw [hbefore] at hderived
        dsimp only at hderived
        -- an accepted step has both antecedents in their places
        split_ifs at hderived with hindex
        rw [not_or, Decidable.not_not, Decidable.not_not] at hindex
        obtain ⟨hi, hr⟩ := hindex
        rw [← hr, hother, hi] at hderived
        rw [hi] at hr
        rw [if_neg Bool.false_ne_true, ← hr]
        exact (Except.ok.inj hderived).symm

/-- If a proof is accepted whose root is that of the tree over a memory, whatever the memory
holds: every opening shows the block of the memory and the path of the tree, the walk over the
memory visits the blocks of the steps and ends at the digest of the proof, the digest meets the
target, and every block visited is the one that is derived in its place.  Otherwise a collision is
met among what is hashed for the tree and for the paths of the proof. -/
theorem memory_or_collision_of_verify {header : Bytes} {target : Target} {jobs : Nat}
    (hm : m.geometry = p.geometry)
    (ht : HashTree.ofBlocks p.nodeWidth (.ofHeader header) m.blocks.toList jobs = .ok t)
    (hroot : proof.root = t.root) (h : proof.verify p header target = .ok ()) :
    Collision p.nodeWidth
        (HashTree.messages (.ofHeader header) p.nodeWidth m.blocks.toList ++
          proof.messages (.ofHeader header) p.nodeWidth) ∨
      (∀ o ∈ proof.steps.flatMap Step.openings, o.IsTrue m t) ∧
        walk m.get? p (.ofHeader header) proof.root proof.nonce =
          (proof.selectedIndices.map UInt32.toNat, some proof.digest) ∧
        target.isMetBy proof.digest = true ∧
        ∀ i ∈ proof.selectedIndices,
          m.IsDerivedAt (some (Challenge.ofHeader header).jobWords)
            (prehash p (.ofHeader header)) i.toNat := by
  obtain ⟨-, hsteps, -, known, hreveal, hwalk, hderived⟩ := verify_eq_ok_iff.1 h
  rcases isTrue_or_collision_of_revealAll hm (HashTree.isOver_of_ofBlocks ht) hroot hreveal with
    htrue | hcollision
  · obtain ⟨hwalk, hmet⟩ := (checkWalk_eq_ok_iff hsteps).1 hwalk
    refine .inr ⟨fun o ho => (htrue o ho).1, ?_, hmet, ?_⟩
    · -- the walk comes by selected blocks only, and those are known as the memory has them
      apply walkFrom_congr hwalk
      intro i hi
      obtain ⟨index, hindex, rfl⟩ := List.mem_map.1 hi
      obtain ⟨step, hstep, rfl⟩ := List.mem_map.1 hindex
      obtain ⟨hopening, hknown⟩ := htrue _ (mem_openings hstep List.mem_cons_self)
      rw [hopening.get?_eq, hknown]
    · intro i hi
      obtain ⟨step, hstep, rfl⟩ := List.mem_map.1 hi
      have hknown : ∀ o ∈ step.openings,
          known.get? o.index.toNat = some (m.read o.index.toNat) :=
        fun o ho => (htrue o (mem_openings hstep ho)).2
      exact isDerivedAt_of_checkStep hm hknown (checkDerivations_eq_ok_iff.1 hderived step hstep)
  · exact .inl hcollision

end Proof

end

theorem Proof.memory_or_collision_of_verify_sixteen :
    let p : Params := .sixteen 1
    let c : Challenge := .ofHeader [1, 2, 3]
    ∃ (m : Memory) (t : HashTree) (proof : Proof),
      HashTree.ofBlocks p.nodeWidth c m.blocks.toList 1 = .ok t ∧ proof.root = t.root ∧
      proof.verify p [1, 2, 3] .easiest = .ok () ∧
      (Collision p.nodeWidth (HashTree.messages c p.nodeWidth m.blocks.toList ++
          proof.messages c p.nodeWidth) ∨
        (∀ o ∈ proof.steps.flatMap Step.openings, o.IsTrue m t) ∧
          walk m.get? p c proof.root proof.nonce =
            (proof.selectedIndices.map UInt32.toNat, some proof.digest) ∧
          Target.easiest.isMetBy proof.digest = true ∧
          ∀ i ∈ proof.selectedIndices,
            m.IsDerivedAt (some c.jobWords) (prehash p (.ofHeader [1, 2, 3])) i.toNat) := by
  intro p c
  let f : Fill := { params := p, executor := .serial }
  have he := Executor.isReliable_serial.returnsInOrder
  have hp : f.params.proofFault? = none := by decide
  let r₀ : FillRun := { memory := .ofGeometry p.geometry (some c.jobWords) }
  have hl : f.IsLeftAlone r₀ := .inr ⟨rfl, fun _ _ _ => rfl⟩
  obtain ⟨r, t, hr, ht⟩ := Fill.exists_run_build he hl rfl (by decide) [1, 2, 3]
  have hready := Fill.isReady_of_run he.isHonest hp hr ht
  have hderived := Fill.isDerived_of_run he.isHonest rfl hr
  obtain ⟨visited, digest, hwalk⟩ := hready.exists_walk 7
  have hwin := hready.isWinning_iff.2
    ⟨7, visited, digest, hwalk, Target.isMetBy_easiest digest, rfl⟩
  have hverify := Prover.verify_of_isWinning hready rfl hderived hwin
  have hbuild : HashTree.ofBlocks p.nodeWidth c r.memory.blocks.toList 1 = .ok t := ht
  have hgeometry : r.memory.geometry = p.geometry := Fill.geometry_of_run he.isHonest hr
  exact ⟨r.memory, t, _, hbuild, rfl, hverify,
    Proof.memory_or_collision_of_verify hgeometry hbuild rfl hverify⟩

end MemoryHard
