import MemoryHard.Proofs.Proof.Checked
import MemoryHard.Proofs.Proof.Completeness

/-!
# MemoryHard.Proofs.Proof.Rejections — where the rejections of a proof come from

Each part of the check has its own reasons to reject a proof.  While blocks are derived again no
lookup fails, since whatever a step shows is known by then.

* `Step.IsRevealed`, `isRevealed_of_revealAll` — what is known of a step;
* `checkWalk_eq_error`, `checkStep_eq_error`, `verify_eq_error` — the reasons of each part;
* `verify_eq_unprovenBlock_iff`, `exists_of_missingAntecedent` — what two of the rejections say;
* `verify_total` — every proof gets a verdict.
-/

namespace MemoryHard

open MemoryHard.Bytes

/-- All that a step shows is known.  These are the blocks looked up to check it: the one visited,
the one before, and the reference, once its index is compared with that of what is shown. -/
def Step.IsRevealed (step : Step) (known : Revealed) : Prop :=
  ∀ o ∈ step.openings, (known.get? o.index.toNat).isSome

section
variable [HashSuite] {p : Params} {c : Challenge} {root h0 : Bytes}

namespace Proof

variable {proof : Proof} {known known' : Revealed} {job : JobWords} {step : Step}
  {target : Target} {rejection : Rejection}

/-! ## What is known -/

theorem get?_of_revealOpenings {os : List Opening}
    (h : revealOpenings p c root known os = .ok known') :
    (∀ i, (known.get? i).isSome → (known'.get? i).isSome) ∧
      ∀ o ∈ os, (known'.get? o.index.toNat).isSome := by
  induction os generalizing known with
  | nil =>
    cases h
    exact ⟨fun i hi => hi, fun o ho => nomatch ho⟩
  | cons o os ih =>
    rw [revealOpenings] at h
    cases hc : o.check p c root with
    | error rejection => simp [hc] at h
    | ok block =>
      rw [hc] at h
      obtain ⟨hkeep, hmem⟩ := ih h
      have hinsert : ∀ i, (known.get? i).isSome →
          ((known.insert o.index.toNat block).get? i).isSome := by
        intro i hi
        rw [Revealed.get?_insert]
        split_ifs
        · rfl
        · exact hi
      refine ⟨fun i hi => hkeep i (hinsert i hi), fun o' ho => ?_⟩
      rcases List.mem_cons.1 ho with rfl | ho
      · exact hkeep _ (by rw [Revealed.get?_insert, if_pos rfl]; rfl)
      · exact hmem o' ho

/-- All that a step shows is known when its block is derived again. -/
theorem isRevealed_of_revealAll (h : proof.revealAll p c = .ok known) :
    ∀ step ∈ proof.steps, step.IsRevealed known := fun step hstep o ho =>
  (get?_of_revealOpenings h).2 o (List.mem_flatMap.2 ⟨step, hstep, ho⟩)

/-! ## The parts of the check -/

/-- All that an opening may be rejected for. -/
theorem check_eq_error {o : Opening} (h : o.check p c root = .error rejection) :
    rejection = .indexOutOfRange o.index.toNat ∨ rejection = .malformedBlock o.index.toNat ∨
      rejection = .pathMismatch o.index.toNat := by
  unfold Opening.check at h
  split_ifs at h
  · cases h
    exact .inl rfl
  refine .inr ?_
  cases hb : o.block? with
  | none =>
    rw [hb] at h
    cases h
    exact .inl rfl
  | some block =>
    rw [hb] at h
    dsimp only at h
    split_ifs at h
    cases h
    exact .inr rfl

theorem exists_of_revealOpenings {os : List Opening}
    (h : revealOpenings p c root known os = .error rejection) :
    ∃ o ∈ os, o.check p c root = .error rejection := by
  induction os generalizing known with
  | nil => cases h
  | cons o os ih =>
    rw [revealOpenings] at h
    cases hc : o.check p c root with
    | error found =>
      rw [hc] at h
      cases h
      exact ⟨o, List.mem_cons_self, hc⟩
    | ok block =>
      rw [hc] at h
      obtain ⟨o', ho', hcheck⟩ := ih h
      exact ⟨o', List.mem_cons_of_mem _ ho', hcheck⟩

theorem exists_of_checkDerivations {steps : List Step}
    (h : checkDerivations p h0 job known steps = .error rejection) :
    ∃ step ∈ steps, checkStep p h0 job known step = .error rejection := by
  induction steps with
  | nil => cases h
  | cons step steps ih =>
    rw [checkDerivations] at h
    cases hc : checkStep p h0 job known step with
    | error found =>
      rw [hc] at h
      cases h
      exact ⟨step, List.mem_cons_self, hc⟩
    | ok _ =>
      rw [hc] at h
      obtain ⟨step', hstep', hcheck⟩ := ih h
      exact ⟨step', List.mem_cons_of_mem _ hstep', hcheck⟩

omit [HashSuite] in
theorem exists_of_firstMismatch {step : Nat} {es as : List Nat}
    (h : firstMismatch step es as = some rejection) :
    ∃ step expected actual, rejection = .selectionMismatch step expected actual := by
  induction es generalizing step as with
  | nil => simp [firstMismatch] at h
  | cons e es ih =>
    cases as with
    | nil => simp [firstMismatch] at h
    | cons a as =>
      rw [firstMismatch] at h
      split_ifs at h with hea
      · exact ih h
      · cases h
        exact ⟨step, e, a, rfl⟩

/-- All that a walk may be rejected for. -/
theorem checkWalk_eq_error (h : proof.checkWalk p c target known = .error rejection) :
    (rejection = .unprovenBlock ∧ (walk known.get? p c proof.root proof.nonce).2 = none) ∨
      (∃ step expected actual, rejection = .selectionMismatch step expected actual) ∨
      rejection = .digestMismatch ∨ rejection = .difficultyNotMet := by
  unfold checkWalk at h
  cases hwalk : walk known.get? p c proof.root proof.nonce with
  | mk visited last =>
    rw [hwalk] at h
    cases last with
    | none =>
      cases h
      exact .inl ⟨rfl, rfl⟩
    | some digest =>
      dsimp only at h
      refine .inr ?_
      cases hm : firstMismatch 0 visited (proof.selectedIndices.map UInt32.toNat) with
      | some found =>
        rw [hm] at h
        cases h
        exact .inl (exists_of_firstMismatch hm)
      | none =>
        rw [hm] at h
        dsimp only at h
        split_ifs at h
        · cases h
          exact .inr (.inl rfl)
        · cases h
          exact .inr (.inr rfl)

/-- All that stands in the way of deriving a block again, given that what the step shows is known:
the reference is looked up in the place the step gives for it. -/
theorem derivedBlock_eq_error (hknown : step.IsRevealed known)
    (h : derivedBlock p h0 job known step = .error rejection) :
    (rejection = .missingAntecedent step.selected.index.toNat ∧
        p.geometry.isSeed step.selected.index.toNat = false ∧
        (step.previous = none ∨ step.reference = none)) ∨
      rejection = .antecedentMismatch step.selected.index.toNat := by
  unfold derivedBlock at h
  dsimp only at h
  cases hs : p.geometry.isSeed step.selected.index.toNat with
  | true => simp [hs] at h
  | false =>
    simp only [hs, Bool.false_eq_true, if_false] at h
    cases hprevious : step.previous with
    | none =>
      rw [hprevious] at h
      cases h
      exact .inl ⟨rfl, rfl, .inl rfl⟩
    | some previous =>
      cases hreference : step.reference with
      | none =>
        rw [hprevious, hreference] at h
        cases h
        exact .inl ⟨rfl, rfl, .inr rfl⟩
      | some reference =>
        obtain ⟨before, hbefore⟩ :=
          Option.isSome_iff_exists.1 (hknown previous (by simp [Step.openings, hprevious]))
        obtain ⟨other, hother⟩ :=
          Option.isSome_iff_exists.1 (hknown reference (by simp [Step.openings, hreference]))
        rw [hprevious, hreference] at h
        simp only [hbefore] at h
        by_cases hplaces : previous.index.toNat ≠ step.selected.index.toNat - 1 ∨
            reference.index.toNat ≠ p.geometry.reference
              (p.geometry.locate step.selected.index.toNat) before.firstWord
        · rw [if_pos hplaces] at h
          cases h
          exact .inr rfl
        · -- the reference is in its place, where the step shows it, so nothing is left to fail
          rw [if_neg hplaces, ← Decidable.not_not.1 (not_or.1 hplaces).2, hother] at h
          cases h

/-- All that a visit may be rejected for, given that what the step shows is known. -/
theorem checkStep_eq_error (hknown : step.IsRevealed known)
    (h : checkStep p h0 job known step = .error rejection) :
    (rejection = .missingAntecedent step.selected.index.toNat ∧
        p.geometry.isSeed step.selected.index.toNat = false ∧
        (step.previous = none ∨ step.reference = none)) ∨
      rejection = .antecedentMismatch step.selected.index.toNat ∨
      rejection = .derivationMismatch step.selected.index.toNat := by
  obtain ⟨block, hblock⟩ := Option.isSome_iff_exists.1 (hknown step.selected List.mem_cons_self)
  unfold checkStep at h
  dsimp only at h
  rw [hblock] at h
  cases hd : derivedBlock p h0 job known step with
  | error found =>
    rw [hd] at h
    cases h
    rcases derivedBlock_eq_error hknown hd with hmissing | hmismatch
    · exact .inl hmissing
    · exact .inr (.inl hmismatch)
  | ok expected =>
    rw [hd] at h
    dsimp only at h
    split_ifs at h
    cases h
    exact .inr (.inr rfl)

/-! ## The whole check -/

/-- Where a rejection comes from. -/
theorem verify_eq_error {header : Bytes}
    (h : proof.verify p header target = .error rejection) :
    ((∃ failure, rejection = .params failure) ∨
        rejection = .stepCount p.searchLength.toNat proof.steps.length ∨
        rejection = .malformedRoot proof.root.length) ∨
      (p.proofFault? = none ∧ proof.steps.length = p.searchLength.toNat ∧
        proof.root.length = p.nodeWidth ∧
        ((∃ o ∈ proof.steps.flatMap Step.openings,
            o.check p (.ofHeader header) proof.root = .error rejection) ∨
          ∃ known, proof.revealAll p (.ofHeader header) = .ok known ∧
            (proof.checkWalk p (.ofHeader header) target known = .error rejection ∨
              ∃ step ∈ proof.steps, checkStep p (prehash p (.ofHeader header))
                (Challenge.ofHeader header).jobWords known step = .error rejection))) := by
  rcases verify_inv proof p header target with ⟨-, failure, hr⟩ | ⟨-, hr⟩ | ⟨-, hr⟩ |
    ⟨hp, hsteps, hroot, hrest⟩
  · cases h.symm.trans hr
    exact .inl (.inl ⟨failure, rfl⟩)
  · cases h.symm.trans hr
    exact .inl (.inr (.inl rfl))
  · cases h.symm.trans hr
    exact .inl (.inr (.inr rfl))
  refine .inr ⟨hp, hsteps, hroot, ?_⟩
  rcases hrest with ⟨found, hreveal, hr⟩ | ⟨known, hknown, ⟨found, hwalk, hr⟩ | ⟨-, hr⟩⟩
  · cases h.symm.trans hr
    exact .inl (exists_of_revealOpenings hreveal)
  · cases h.symm.trans hr
    exact .inr ⟨known, hknown, .inl hwalk⟩
  · exact .inr ⟨known, hknown, .inr (exists_of_checkDerivations (hr.symm.trans h))⟩

theorem checkWalk_of_walk (h : (walk known.get? p c proof.root proof.nonce).2 = none) :
    proof.checkWalk p c target known = .error .unprovenBlock := by
  unfold checkWalk
  rw [show walk known.get? p c proof.root proof.nonce = (_, none) from Prod.ext rfl h]

/-- A block is said to be missing just if the walk comes by one that is not revealed. -/
theorem verify_eq_unprovenBlock_iff {header : Bytes} :
    proof.verify p header target = .error .unprovenBlock ↔ p.proofFault? = none ∧
      proof.steps.length = p.searchLength.toNat ∧ proof.root.length = p.nodeWidth ∧
      ∃ known, proof.revealAll p (.ofHeader header) = .ok known ∧
        (walk known.get? p (.ofHeader header) proof.root proof.nonce).2 = none := by
  constructor
  · intro h
    rcases verify_eq_error h with hshape | ⟨hp, hsteps, hroot, hrest⟩
    · simp at hshape
    refine ⟨hp, hsteps, hroot, ?_⟩
    -- an opening or a step is rejected in other words
    rcases hrest with ⟨o, -, hcheck⟩ | ⟨known, hknown, hwalk | ⟨step, hstep, hcheck⟩⟩
    · simpa using check_eq_error hcheck
    · rcases checkWalk_eq_error hwalk with ⟨-, hnone⟩ | hother
      · exact ⟨known, hknown, hnone⟩
      · simp at hother
    · simpa using checkStep_eq_error (isRevealed_of_revealAll hknown step hstep) hcheck
  · rintro ⟨hp, hsteps, hroot, known, hknown, hnone⟩
    exact verify_of_checkWalk_error hp hsteps hroot hknown (checkWalk_of_walk hnone)

/-- What a block is derived from is missing only where a step does not show it. -/
theorem exists_of_missingAntecedent {header : Bytes} {i : Nat}
    (h : proof.verify p header target = .error (.missingAntecedent i)) :
    ∃ step ∈ proof.steps, step.selected.index.toNat = i ∧ p.geometry.isSeed i = false ∧
      (step.previous = none ∨ step.reference = none) := by
  rcases verify_eq_error h with hshape | ⟨-, -, -, hrest⟩
  · simp at hshape
  rcases hrest with ⟨o, -, hcheck⟩ | ⟨known, hknown, hwalk | ⟨step, hstep, hcheck⟩⟩
  · simpa using check_eq_error hcheck
  · simpa using checkWalk_eq_error hwalk
  · rcases checkStep_eq_error (isRevealed_of_revealAll hknown step hstep) hcheck with
      ⟨heq, hs, hnone⟩ | hother
    · cases heq
      exact ⟨step, hstep, rfl, hs, hnone⟩
    · simp at hother

/-- The check of a proof has a result, whatever the proof and the parameters.  While blocks are
derived again everything is found that a step shows, so the walk alone meets a block that is not
revealed, and what a block is derived from is missing only if the step does not show it. -/
theorem verify_total (proof : Proof) (p : Params) (header : Bytes) (target : Target) :
    proof.verify? p header target = some (proof.verify p header target) ∧
    (∀ known, proof.revealAll p (.ofHeader header) = .ok known →
      ∀ step ∈ proof.steps, step.IsRevealed known) ∧
    (proof.verify p header target = .error .unprovenBlock ↔ p.proofFault? = none ∧
      proof.steps.length = p.searchLength.toNat ∧ proof.root.length = p.nodeWidth ∧
      ∃ known, proof.revealAll p (.ofHeader header) = .ok known ∧
        (walk known.get? p (.ofHeader header) proof.root proof.nonce).2 = none) ∧
    ∀ i, proof.verify p header target = .error (.missingAntecedent i) →
      ∃ step ∈ proof.steps, step.selected.index.toNat = i ∧ p.geometry.isSeed i = false ∧
        (step.previous = none ∨ step.reference = none) :=
  ⟨verify?_eq_some proof p header target, fun _ h => isRevealed_of_revealAll h,
    verify_eq_unprovenBlock_iff, fun _ h => exists_of_missingAntecedent h⟩

end Proof

end

/-- A proof over sixteen blocks whose steps all reveal one block, and not the one that the walk
visits first. -/
theorem Proof.verify_total_sixteen :
    ∃ proof : Proof, proof.verify? { Params.sixteen 1 with jobs := 1 } [1, 2, 3] .easiest =
      some (.error .unprovenBlock) := by
  obtain ⟨prover, hparams, hc, -, hready, -⟩ := Prover.exists_sixteen 1
  rw [← hparams]
  have hcount : prover.params.blockCount = 16 := by rw [hparams]; decide
  have hlength : prover.params.searchLength.toNat = 69 + 1 := by rw [hparams]; rfl
  let start := walkStart prover.challenge prover.tree.root 7
  let first := walkIndex prover.params.blockCount start
  obtain ⟨other, hother, hne⟩ : ∃ other < prover.params.blockCount, other ≠ first := by
    by_cases h : first = 0
    · exact ⟨1, by omega, by omega⟩
    · exact ⟨0, by omega, fun h0 => h h0.symm⟩
  let step : Step := ⟨prover.opening other, none, none⟩
  let proof : Proof := ⟨7, prover.tree.root, start, List.replicate 70 step⟩
  have hindex := hready.index_opening hother
  have hopening : ∀ o ∈ proof.steps.flatMap Step.openings, o = prover.opening other := by
    intro o ho
    obtain ⟨shown, hshown, ho⟩ := List.mem_flatMap.1 ho
    rw [List.eq_of_mem_replicate hshown] at ho
    exact List.mem_singleton.1 ho
  have hcheck : ∀ o ∈ proof.steps.flatMap Step.openings,
      o.check prover.params prover.challenge proof.root =
        .ok (prover.memory.read o.index.toNat) := by
    intro o ho
    rw [hopening o ho, hindex]
    exact hready.check_opening hother
  obtain ⟨known, hknown, -, hkeep⟩ := revealOpenings_eq_ok hcheck {}
  have hunknown : known.get? first = none :=
    hkeep first fun o ho => by rw [hopening o ho, hindex]; exact hne
  have hwalk : (walk known.get? prover.params prover.challenge proof.root 7).2 = none := by
    rw [walk, hlength, walkFrom_of_none hunknown]
  rw [hc] at hknown hwalk
  obtain ⟨htotal, -, hiff, -⟩ := verify_total proof prover.params [1, 2, 3] .easiest
  refine ⟨proof, ?_⟩
  rw [htotal, hiff.2 ⟨hready.proofFault_eq, hlength.symm, hready.isOver.length_root, known,
    hknown, hwalk⟩]

end MemoryHard
