import MemoryHard.Proof.Checked
import MemoryHard.Proofs.Commitment.Binding
import MemoryHard.Proofs.Digest.Widths
import MemoryHard.Proofs.Geometry.Checked
import MemoryHard.Proofs.Proof.Verify

/-!
# MemoryHard.Proofs.Proof.Checked — no proof throws the check of proofs off

Whatever is in a proof and in the parameters, no step of the check leaves its range, since what is
checked before bounds what comes after.

* `climb?_eq_some`, `walkFrom?_eq_some`, `Opening.check?_eq_some` — the parts;
* `derivedBlock?_eq_some` — a block that is no seed has a position where one is derived;
* `verify?_eq_some` — the whole check.
-/

namespace MemoryHard

open MemoryHard.Bytes Word Digest

theorem Params.validateForProof?_eq_some (p : Params) :
    p.validateForProof? = some p.validateForProof := by
  have hfit : 2 * slices * p.lanes.toNat < UInt64.size := by
    have hlanes := p.lanes.toNat_lt
    simp only [slices, UInt64.size]
    omega
  unfold validateForProof?
  rw [mul?_eq_some hfit]
  rfl

theorem room?_eq_some {present count : Nat} (h : count ≤ present) : room? present count = some () :=
  if_pos (.inl h)

section
variable [HashSuite] {p : Params} {c : Challenge} {root h0 : Bytes}

/-! ## Paths -/

theorem climb?_eq_some {width : Nat} (h1 : 1 ≤ width) (h2 : width ≤ HashSuite.maxWidth)
    (siblings : List Bytes) {index : Nat} (hindex : index < UInt32.size) (count : Nat)
    (current : Bytes) :
    climb? c width index count current siblings =
      some (climb c width index count current siblings) := by
  induction siblings generalizing index count current with
  | nil => rfl
  | cons sibling siblings ih =>
    have hhalf : index / 2 < UInt32.size := Nat.lt_of_le_of_lt (Nat.div_le_self _ _) hindex
    have hnext : index + 1 < UInt64.size :=
      Nat.lt_of_le_of_lt (Nat.succ_le_of_lt hindex) (by decide)
    rw [climb?, climb]
    simp only [add?_eq_some hnext, hash?_eq_some h1 h2, ih hhalf, Option.bind_eq_bind,
      Option.bind_some]
    split_ifs <;> rfl

theorem HashPath.verify?_eq_some (path : HashPath) {width count : Nat} (index : Nat)
    (hcount : count < UInt32.size) (block : Block) :
    path.verify? c width count index block root =
      some (path.verify c width count index block root) := by
  unfold verify?
  by_cases h : minNodeWidth ≤ width ∧ width ≤ maxNodeWidth ∧ index < count ∧
      path.siblings.length = treeDepth count
  · obtain ⟨hmin, hmax, hindex, hlength⟩ := h
    have h1 : 1 ≤ width := Nat.le_trans (by decide) hmin
    rw [if_pos ⟨hmin, hmax, hindex, hlength⟩, hash?_eq_some h1 hmax]
    simp only [Option.bind_eq_bind, Option.bind_some,
      climb?_eq_some h1 hmax _ (Nat.lt_trans hindex hcount)]
    simp [verify, hmin, hmax, hindex, hlength, leafHash]
    rfl
  · have hfalse : path.verify c width count index block root = false := by
      refine Bool.eq_false_iff.2 fun hv => h ?_
      obtain ⟨⟨hmin, hmax⟩, hindex, hlength, -⟩ := verify_iff.1 hv
      exact ⟨hmin, hmax, hindex, hlength⟩
    rw [if_neg h, hfalse]

/-! ## Walks and openings -/

theorem walkFrom?_eq_some {count : Nat} (hcount : 0 < count) (store : Nat → Option Block)
    (steps : Nat) (digest : FixedBytes 32) :
    walkFrom? store count steps digest = some (walkFrom store count steps digest) := by
  induction steps generalizing digest with
  | zero => rfl
  | succ steps ih =>
    rw [walkFrom?, walkFrom, mod?_eq_some (Nat.ne_of_gt hcount)]
    simp only [Option.bind_eq_bind, Option.bind_some, walkIndex]
    cases store (leNat (digest.toList.take 8) % count) with
    | none => rfl
    | some block => simp only [ih, Option.bind_some]; rfl

theorem Opening.check?_eq_some (h : 0 < p.lanes.toNat) (o : Opening) :
    o.check? p c root = some (o.check p c root) := by
  unfold check? check
  rw [Params.blockCount?_eq_some h]
  simp only [Option.bind_eq_bind, Option.bind_some]
  split_ifs with hi
  · rfl
  · cases o.block? with
    | none => rfl
    | some block =>
      simp only [HashPath.verify?_eq_some _ _ p.blockCount_lt_size, Option.bind_some]
      split_ifs <;> rfl

theorem seedBlock?_eq_some (prehash : Bytes) (lane which : Nat) :
    seedBlock? prehash lane which = some (seedBlock prehash lane which) := by
  unfold seedBlock? seedBlock
  rw [stretch?_eq_some (by decide)]
  rfl

namespace Proof

variable {proof : Proof} {known known' : Revealed} {job : JobWords} {step : Step}
  {target : Target}

theorem revealOpenings?_eq_some (h : 0 < p.lanes.toNat) (known : Revealed) (os : List Opening) :
    revealOpenings? p c root known os = some (revealOpenings p c root known os) := by
  induction os generalizing known with
  | nil => rfl
  | cons o os ih =>
    rw [revealOpenings?, revealOpenings, Opening.check?_eq_some h]
    simp only [Option.bind_eq_bind, Option.bind_some]
    cases o.check p c root with
    | error rejection => rfl
    | ok block => exact ih _

theorem checkWalk?_eq_some (hp : p.fault? = none)
    (hsteps : proof.steps.length = p.searchLength.toNat) (known : Revealed) :
    proof.checkWalk? p c target known = some (proof.checkWalk p c target known) := by
  have hlanes : 0 < p.lanes.toNat := (Params.fault?_eq_none_iff.1 hp).1
  have hcount : 0 < p.blockCount := by
    rw [← Params.geometry_blockCount]
    exact (Params.isRegular_geometry hp).blockCount_pos
  unfold checkWalk? checkWalk walk
  rw [room?_eq_some (Nat.le_of_eq hsteps.symm), Params.blockCount?_eq_some hlanes]
  simp only [Option.bind_eq_bind, Option.bind_some, walkFrom?_eq_some hcount]
  obtain ⟨visited, last⟩ :=
    walkFrom known.get? p.blockCount p.searchLength.toNat (walkStart c proof.root proof.nonce)
  cases last with
  | none => rfl
  | some digest =>
    dsimp only
    cases firstMismatch 0 visited (proof.selectedIndices.map UInt32.toNat) with
    | some rejection => rfl
    | none =>
      dsimp only
      split_ifs <;> rfl

/-! ## Derivations -/

/-- A block visited that is no seed stands where one is derived, so a reference is drawn for a
position at which the window is not empty. -/
theorem derivedBlock?_eq_some (hp : p.fault? = none)
    (hi : step.selected.index.toNat < p.blockCount) :
    derivedBlock? p.geometry h0 job known step = some (derivedBlock p h0 job known step) := by
  have hg := Params.isRegular_geometry hp
  have hlane := Nat.ne_of_gt hg.laneLength_pos
  rw [← Params.geometry_blockCount] at hi
  unfold derivedBlock? derivedBlock
  dsimp only
  rw [Geometry.isSeed?_eq_some hg]
  simp only [Option.bind_eq_bind, Option.bind_some]
  cases hs : p.geometry.isSeed step.selected.index.toNat with
  | true =>
    simp only [if_true, div?_eq_some hlane, mod?_eq_some hlane, seedBlock?_eq_some,
      Option.bind_some]
    rfl
  | false =>
    have hlegal := Geometry.isLegal_locate hg hi hs
    -- block 0 is a seed
    have hpos : 1 ≤ step.selected.index.toNat := by
      have hplace : ¬step.selected.index.toNat % p.geometry.laneLength < 2 := of_decide_eq_false hs
      have hle := Nat.mod_le step.selected.index.toNat p.geometry.laneLength
      omega
    simp only [Bool.false_eq_true, if_false]
    cases step.previous with
    | none => rfl
    | some previous =>
      cases step.reference with
      | none => rfl
      | some reference =>
        dsimp only
        cases known.get? previous.index.toNat with
        | none => rfl
        | some before =>
          simp only [Geometry.locate?_eq_some hg, Geometry.reference?_eq_some hlegal hg,
            sub?_eq_some hpos, Option.bind_some]
          split_ifs
          · rfl
          · cases known.get? (p.geometry.reference (p.geometry.locate step.selected.index.toNat)
                before.firstWord) <;> rfl

theorem checkDerivations?_eq_some (hp : p.fault? = none) {steps : List Step}
    (hsteps : ∀ step ∈ steps, step.selected.index.toNat < p.blockCount) :
    checkDerivations? p.geometry h0 job known steps =
      some (checkDerivations p h0 job known steps) := by
  induction steps with
  | nil => rfl
  | cons step steps ih =>
    have hrest := ih fun step' hstep' => hsteps step' (List.mem_cons_of_mem _ hstep')
    rw [checkDerivations?, checkDerivations, checkStep]
    cases known.get? step.selected.index.toNat with
    | none => rfl
    | some block =>
      rw [derivedBlock?_eq_some hp (hsteps step List.mem_cons_self)]
      simp only [Option.bind_eq_bind, Option.bind_some]
      cases derivedBlock p h0 job known step with
      | error rejection => rfl
      | ok expected =>
        dsimp only
        by_cases hb : block = expected
        · rw [if_pos hb, if_pos hb]
          exact hrest
        · rw [if_neg hb, if_neg hb]
          rfl

theorem index_lt_of_revealAll (h : proof.revealAll p c = .ok known) :
    ∀ step ∈ proof.steps, ∀ o ∈ step.openings, o.index.toNat < p.blockCount := by
  intro step hstep o ho
  obtain ⟨block, hblock⟩ :=
    check_of_revealOpenings h o (List.mem_flatMap.2 ⟨step, hstep, ho⟩)
  exact (Opening.check_eq_ok_iff.1 hblock).1

/-- No proof and no parameters make the check of the proof leave its range. -/
theorem verify?_eq_some (proof : Proof) (p : Params) (header : Bytes) (target : Target) :
    proof.verify? p header target = some (proof.verify p header target) := by
  unfold verify? verify
  rw [Params.validateForProof?_eq_some]
  simp only [Option.bind_eq_bind, Option.bind_some]
  cases hvalid : p.validateForProof with
  | error failure => rfl
  | ok _ =>
    have hp : p.fault? = none :=
      (Params.proofFault?_eq_none_iff.1 (Params.validateForProof_eq_ok_iff.1 hvalid)).1
    have hlanes : 0 < p.lanes.toNat := (Params.fault?_eq_none_iff.1 hp).1
    by_cases hsteps : proof.steps.length = p.searchLength.toNat
    case neg => simp [hsteps]; rfl
    by_cases hroot : proof.root.length = p.nodeWidth
    case neg => simp [hsteps, hroot]; rfl
    simp only [hsteps, hroot, ne_eq, not_true, if_false, revealOpenings?_eq_some hlanes,
      Option.bind_some]
    unfold revealAll
    cases hknown : revealOpenings p (.ofHeader header) proof.root {}
        (proof.steps.flatMap Step.openings) with
    | error rejection => rfl
    | ok known =>
      simp only [checkWalk?_eq_some hp hsteps, Option.bind_some]
      cases hwalk : proof.checkWalk p (.ofHeader header) target known with
      | error rejection => simp [hwalk, bind, Except.bind]
      | ok _ =>
        -- the openings have been accepted by now, so their indices are those of blocks
        have hvisited : ∀ step ∈ proof.steps, step.selected.index.toNat < p.blockCount :=
          fun step hstep => index_lt_of_revealAll hknown step hstep _ List.mem_cons_self
        simp only [Params.wordGeometry_eq_some hlanes, Option.bind_some,
          checkDerivations?_eq_some hp hvisited]
        simp [hwalk, bind, Except.bind]

end Proof

end

end MemoryHard
