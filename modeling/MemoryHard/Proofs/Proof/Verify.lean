import Mathlib.Tactic.SplitIfs
import MemoryHard.Proof.Verify
import MemoryHard.Proofs.Block.Encoding
import MemoryHard.Proofs.Geometry.Layout
import MemoryHard.Proofs.Proof.Walk

/-!
# MemoryHard.Proofs.Proof.Verify — what it takes for a proof to be accepted

* `Opening.check_eq_ok_iff` — what a single opening needs;
* `check_of_revealOpenings`, `revealOpenings_eq_ok` — all openings, and what is known afterwards;
* `checkWalk_eq_ok_iff` — the walk has to visit the blocks of the steps;
* `checkDerivations_eq_ok_iff` — every block visited has to be the one derived in its place;
* `verify_eq_checkDerivations`, `verify_inv`, `verify_eq_ok_iff` — all of it.
-/

namespace MemoryHard

open MemoryHard.Bytes

variable [HashSuite] {p : Params} {c : Challenge} {root : Bytes}

/-! ## Openings -/

theorem Opening.check_eq_ok_iff {o : Opening} {block : Block} :
    o.check p c root = .ok block ↔ o.index.toNat < p.blockCount ∧ o.block? = some block ∧
      o.path.verify c p.nodeWidth p.blockCount o.index.toNat block root = true := by
  unfold check
  by_cases hi : p.blockCount ≤ o.index.toNat
  · simp [hi, Nat.not_lt.2 hi]
  · rw [if_neg hi]
    cases hb : o.block? with
    | none => simp
    | some found =>
      dsimp only
      by_cases hv : o.path.verify c p.nodeWidth p.blockCount o.index.toNat found root = true
      · rw [if_pos hv, Except.ok.injEq, Option.some.injEq]
        constructor
        · rintro rfl
          exact ⟨Nat.not_le.1 hi, rfl, hv⟩
        · exact fun h => h.2.1
      · rw [if_neg hv]
        constructor
        · exact fun h => nomatch h
        · rintro ⟨-, hfound, hv'⟩
          cases hfound
          exact absurd hv' hv

namespace Proof

variable {known known' : Revealed} {os : List Opening}

/-- If all openings are accepted, each of them is. -/
theorem check_of_revealOpenings (h : revealOpenings p c root known os = .ok known') :
    ∀ o ∈ os, ∃ block, o.check p c root = .ok block := by
  induction os generalizing known with
  | nil => exact fun o ho => nomatch ho
  | cons o os ih =>
    rw [revealOpenings] at h
    cases hc : o.check p c root with
    | error rejection => simp [hc] at h
    | ok block =>
      rw [hc] at h
      intro o' ho
      rcases List.mem_cons.1 ho with rfl | ho
      · exact ⟨block, hc⟩
      · exact ih h o' ho

/-- If every opening shows the block of a store, all of them are accepted, and known is what the
store has at their indices, however often one of them occurs. -/
theorem revealOpenings_eq_ok {store : Nat → Block}
    (h : ∀ o ∈ os, o.check p c root = .ok (store o.index.toNat)) (known : Revealed) :
    ∃ known', revealOpenings p c root known os = .ok known' ∧
      (∀ o ∈ os, known'.get? o.index.toNat = some (store o.index.toNat)) ∧
      ∀ i, (∀ o ∈ os, o.index.toNat ≠ i) → known'.get? i = known.get? i := by
  induction os generalizing known with
  | nil => exact ⟨known, rfl, fun o ho => (nomatch ho), fun i _ => rfl⟩
  | cons o os ih =>
    have hos : ∀ o' ∈ os, o'.check p c root = .ok (store o'.index.toNat) :=
      fun o' ho => h o' (List.mem_cons_of_mem _ ho)
    obtain ⟨known', hreveal, hmem, hkeep⟩ :=
      ih hos (known.insert o.index.toNat (store o.index.toNat))
    refine ⟨known', ?_, ?_, ?_⟩
    · rw [revealOpenings, h o List.mem_cons_self]
      exact hreveal
    · intro o' ho
      -- an opening of the same index later on replaces the block by itself
      by_cases hagain : ∃ o'' ∈ os, o''.index.toNat = o'.index.toNat
      · obtain ⟨o'', ho'', heq⟩ := hagain
        rw [← heq]
        exact hmem o'' ho''
      · have hfirst : o' = o := by
          rcases List.mem_cons.1 ho with ho | ho
          · exact ho
          · exact absurd ⟨o', ho, rfl⟩ hagain
        rw [hkeep _ fun o'' ho'' heq => hagain ⟨o'', ho'', heq⟩, Revealed.get?_insert, hfirst,
          if_pos rfl]
    · intro i hi
      rw [hkeep i fun o' ho => hi o' (List.mem_cons_of_mem _ ho), Revealed.get?_insert,
        if_neg (hi o List.mem_cons_self).symm]

/-! ## The walk -/

omit [HashSuite] in
theorem firstMismatch_eq_none_iff {step : Nat} {es as : List Nat} (hlen : es.length = as.length) :
    firstMismatch step es as = none ↔ es = as := by
  induction es generalizing step as with
  | nil =>
    have hnil : as = [] := List.eq_nil_of_length_eq_zero hlen.symm
    rw [hnil]
    exact ⟨fun _ => rfl, fun _ => rfl⟩
  | cons e es ih =>
    cases as with
    | nil => cases hlen
    | cons a as =>
      rw [firstMismatch, List.cons.injEq]
      by_cases hea : e = a
      · rw [if_pos hea, ih (Nat.succ.inj hlen)]
        exact ⟨fun h => ⟨hea, h⟩, fun h => h.2⟩
      · rw [if_neg hea]
        exact ⟨fun h => (nomatch h), fun h => absurd h.1 hea⟩

variable {proof : Proof} {target : Target}

omit [HashSuite] in
theorem length_selectedIndices : proof.selectedIndices.length = proof.steps.length := by
  rw [selectedIndices, List.length_map]

/-- The walk over what is known has to visit the blocks of the steps, no more and no fewer. -/
theorem checkWalk_eq_ok_iff (hsteps : proof.steps.length = p.searchLength.toNat) :
    proof.checkWalk p c target known = .ok () ↔
      walk known.get? p c proof.root proof.nonce =
        (proof.selectedIndices.map UInt32.toNat, some proof.digest) ∧
      target.isMetBy proof.digest = true := by
  unfold checkWalk
  cases hwalk : walk known.get? p c proof.root proof.nonce with
  | mk visited last =>
    cases last with
    | none => simp
    | some digest =>
      -- a walk that ends takes as many steps as there are, so none is left uncompared
      have hlen : visited.length = (proof.selectedIndices.map UInt32.toNat).length := by
        rw [(walkFrom_visits hwalk).1, List.length_map, length_selectedIndices, hsteps]
      have hnone : firstMismatch 0 _ _ = none ↔ _ := firstMismatch_eq_none_iff hlen
      dsimp only
      rw [Prod.mk.injEq, Option.some.injEq]
      cases hm : firstMismatch 0 visited (proof.selectedIndices.map UInt32.toNat) with
      | some rejection =>
        rw [hm] at hnone
        simp [← hnone]
      | none =>
        have hvisited := hnone.1 hm
        by_cases hd : digest = proof.digest
        · simp [hvisited, hd]
        · simp [hd]

/-! ## Derivations -/

theorem checkDerivations_eq_ok_iff {h0 : Bytes} {job : JobWords} {steps : List Step} :
    checkDerivations p h0 job known steps = .ok () ↔
      ∀ step ∈ steps, checkStep p h0 job known step = .ok () := by
  induction steps with
  | nil => exact ⟨fun _ step hs => (nomatch hs), fun _ => rfl⟩
  | cons step steps ih =>
    rw [checkDerivations, List.forall_mem_cons]
    cases hc : checkStep p h0 job known step with
    | error rejection => simp
    | ok _ => simp [ih]

theorem checkStep_eq_ok_iff {h0 : Bytes} {job : JobWords} {step : Step} :
    checkStep p h0 job known step = .ok () ↔ ∃ block,
      known.get? step.selected.index.toNat = some block ∧
        derivedBlock p h0 job known step = .ok block := by
  unfold checkStep
  dsimp only
  cases hk : known.get? step.selected.index.toNat with
  | none => simp
  | some block =>
    cases hd : derivedBlock p h0 job known step with
    | error rejection => simp
    | ok expected =>
      by_cases hb : block = expected
      · simp [hb]
      · simp [hb, Ne.symm hb]

/-! ## All of it -/

/-- Once a proof has the right size and its openings and its walk are accepted, the derivations
decide. -/
theorem verify_eq_checkDerivations {header : Bytes} (hp : p.proofFault? = none)
    (hsteps : proof.steps.length = p.searchLength.toNat) (hroot : proof.root.length = p.nodeWidth)
    (hknown : proof.revealAll p (.ofHeader header) = .ok known)
    (hwalk : proof.checkWalk p (.ofHeader header) target known = .ok ()) :
    proof.verify p header target = checkDerivations p (prehash p (.ofHeader header))
      (Challenge.ofHeader header).jobWords known proof.steps := by
  rw [verify, Params.validateForProof_eq_ok_iff.2 hp]
  simp [hsteps, hroot, hknown, hwalk, bind, Except.bind]

theorem verify_of_checkWalk_error {header : Bytes} {rejection : Rejection}
    (hp : p.proofFault? = none) (hsteps : proof.steps.length = p.searchLength.toNat)
    (hroot : proof.root.length = p.nodeWidth)
    (hknown : proof.revealAll p (.ofHeader header) = .ok known)
    (hwalk : proof.checkWalk p (.ofHeader header) target known = .error rejection) :
    proof.verify p header target = .error rejection := by
  rw [verify, Params.validateForProof_eq_ok_iff.2 hp]
  simp [hsteps, hroot, hknown, hwalk, bind, Except.bind]

/-- All that the check of a proof can come to. -/
theorem verify_inv (proof : Proof) (p : Params) (header : Bytes) (target : Target) :
    (p.proofFault? ≠ none ∧ ∃ failure, proof.verify p header target = .error (.params failure)) ∨
    (proof.steps.length ≠ p.searchLength.toNat ∧ proof.verify p header target =
      .error (.stepCount p.searchLength.toNat proof.steps.length)) ∨
    (proof.root.length ≠ p.nodeWidth ∧
      proof.verify p header target = .error (.malformedRoot proof.root.length)) ∨
    (p.proofFault? = none ∧ proof.steps.length = p.searchLength.toNat ∧
      proof.root.length = p.nodeWidth ∧
      ((∃ rejection, proof.revealAll p (.ofHeader header) = .error rejection ∧
          proof.verify p header target = .error rejection) ∨
        ∃ known, proof.revealAll p (.ofHeader header) = .ok known ∧
          ((∃ rejection, proof.checkWalk p (.ofHeader header) target known = .error rejection ∧
              proof.verify p header target = .error rejection) ∨
            (proof.checkWalk p (.ofHeader header) target known = .ok () ∧
              proof.verify p header target = checkDerivations p (prehash p (.ofHeader header))
                (Challenge.ofHeader header).jobWords known proof.steps)))) := by
  -- the checks in their order: parameters, number of steps, root, openings, walk
  cases hvalid : p.validateForProof with
  | error failure =>
    have hfault : p.proofFault? ≠ none := fun hp => by
      rw [Params.validateForProof_eq_ok_iff.2 hp] at hvalid
      cases hvalid
    refine .inl ⟨hfault, failure, ?_⟩
    rw [verify, hvalid]
    rfl
  | ok _ =>
    have hp : p.proofFault? = none := Params.validateForProof_eq_ok_iff.1 hvalid
    by_cases hsteps : proof.steps.length = p.searchLength.toNat
    case neg =>
      refine .inr (.inl ⟨hsteps, ?_⟩)
      rw [verify, hvalid]
      simp [hsteps, throw, throwThe, MonadExceptOf.throw, bind, Except.bind]
    by_cases hroot : proof.root.length = p.nodeWidth
    case neg =>
      refine .inr (.inr (.inl ⟨hroot, ?_⟩))
      rw [verify, hvalid]
      simp [hsteps, hroot, throw, throwThe, MonadExceptOf.throw, bind, Except.bind]
    refine .inr (.inr (.inr ⟨hp, hsteps, hroot, ?_⟩))
    cases hknown : proof.revealAll p (.ofHeader header) with
    | error rejection =>
      refine .inl ⟨rejection, rfl, ?_⟩
      rw [verify, hvalid]
      simp [hsteps, hroot, hknown, bind, Except.bind]
    | ok known =>
      refine .inr ⟨known, rfl, ?_⟩
      cases hwalk : proof.checkWalk p (.ofHeader header) target known with
      | error rejection =>
        exact .inl ⟨rejection, rfl, verify_of_checkWalk_error hp hsteps hroot hknown hwalk⟩
      | ok _ =>
        exact .inr ⟨rfl, verify_eq_checkDerivations hp hsteps hroot hknown hwalk⟩

theorem verify_eq_ok_iff {header : Bytes} :
    proof.verify p header target = .ok () ↔ p.proofFault? = none ∧
      proof.steps.length = p.searchLength.toNat ∧ proof.root.length = p.nodeWidth ∧
      ∃ known, proof.revealAll p (.ofHeader header) = .ok known ∧
        proof.checkWalk p (.ofHeader header) target known = .ok () ∧
        checkDerivations p (prehash p (.ofHeader header)) (Challenge.ofHeader header).jobWords
          known proof.steps = .ok () := by
  constructor
  · intro h
    rcases verify_inv proof p header target with ⟨-, failure, hr⟩ | ⟨-, hr⟩ | ⟨-, hr⟩ |
      ⟨hp, hsteps, hroot, hrest⟩
    · cases h.symm.trans hr
    · cases h.symm.trans hr
    · cases h.symm.trans hr
    rcases hrest with ⟨rejection, -, hr⟩ | ⟨known, hknown, ⟨rejection, -, hr⟩ | ⟨hwalk, hr⟩⟩
    · cases h.symm.trans hr
    · cases h.symm.trans hr
    · exact ⟨hp, hsteps, hroot, known, hknown, hwalk, hr.symm.trans h⟩
  · rintro ⟨hp, hsteps, hroot, known, hknown, hwalk, hderived⟩
    rw [verify_eq_checkDerivations hp hsteps hroot hknown hwalk, hderived]

end Proof

end MemoryHard
