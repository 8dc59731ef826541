import MemoryHard.Memory.Derived
import MemoryHard.Proofs.Proof.Verify
import MemoryHard.Proofs.Proof.Winning

/-!
# MemoryHard.Proofs.Proof.Verdict — what is made of the proofs that a prover assembles

The openings of an assembled proof always lead to the root, and the walk over what they reveal is
the walk over the memory.  So the verdict depends on the blocks alone: the first block visited
that is not the one derived in its place speaks against the proof.

* `IsReady.check_opening`, `IsReady.exists_revealAll` — the openings;
* `IsReady.derivedBlock_stepAt` — the block derived again is the one derived in the memory;
* `verdict`, `IsReady.verify_proofOf` — the verdict, with `verdict_eq_ok_iff` and
  `verdict_eq_error_iff` for what it says of the blocks visited.
-/

namespace MemoryHard.Prover

open MemoryHard.Bytes

variable [HashSuite] {p : Prover} {i : Nat} {known : Revealed}

/-- The first of some blocks that is not the one derived in its place speaks against a proof. -/
def verdict (m : Memory) (job : JobWords) (h0 : Bytes) (visited : List Nat) :
    Except Rejection Unit :=
  match visited.find? fun i => ¬m.IsDerivedAt (some job) h0 i with
  | none => .ok ()
  | some i => .error (.derivationMismatch i)

section
variable {m : Memory} {job : JobWords} {h0 : Bytes} {visited : List Nat}

theorem verdict_eq_ok_iff :
    verdict m job h0 visited = .ok () ↔ ∀ i ∈ visited, m.IsDerivedAt (some job) h0 i := by
  unfold verdict
  cases hfind : visited.find? fun i => ¬m.IsDerivedAt (some job) h0 i with
  | none => simpa using hfind
  | some i =>
    have hi := List.find?_some hfind
    have hmem := List.mem_of_find?_eq_some hfind
    exact ⟨fun h => (nomatch h), fun h => absurd (h i hmem) (of_decide_eq_true hi)⟩

theorem verdict_eq_error_iff {rejection : Rejection} :
    verdict m job h0 visited = .error rejection ↔ ∃ before i after,
      visited = before ++ i :: after ∧ (∀ j ∈ before, m.IsDerivedAt (some job) h0 j) ∧
        ¬m.IsDerivedAt (some job) h0 i ∧ rejection = .derivationMismatch i := by
  unfold verdict
  constructor
  · intro h
    cases hfind : visited.find? fun i => ¬m.IsDerivedAt (some job) h0 i with
    | none =>
      rw [hfind] at h
      cases h
    | some i =>
      rw [hfind] at h
      cases h
      obtain ⟨hi, before, after, hvisited, hbefore⟩ := List.find?_eq_some_iff_append.1 hfind
      exact ⟨before, i, after, hvisited, by simpa using hbefore, of_decide_eq_true hi, rfl⟩
  · rintro ⟨before, i, after, hvisited, hbefore, hi, rfl⟩
    have hfind : (visited.find? fun i => ¬m.IsDerivedAt (some job) h0 i) = some i :=
      List.find?_eq_some_iff_append.2
        ⟨decide_eq_true hi, before, after, hvisited, by simpa using hbefore⟩
    rw [hfind]

end

/-- Of the blocks in some openings that is known which the memory of a prover has there. -/
def Knows (p : Prover) (known : Revealed) (os : List Opening) : Prop :=
  ∀ o ∈ os, known.get? o.index.toNat = some (p.memory.read o.index.toNat)

omit [HashSuite] in
theorem opening_mem_openings (p : Prover) (i : Nat) : p.opening i ∈ (p.stepAt i).openings := by
  rw [Step.openings, selected_stepAt]
  exact List.mem_cons_self

namespace IsReady

variable (h : p.IsReady)
include h

theorem check_opening (hi : i < p.params.blockCount) :
    (p.opening i).check p.params p.challenge p.tree.root = .ok (p.memory.read i) := by
  have hindex := h.index_opening hi
  have hblock : p.memory.blocks.toList[i]? = some (p.memory.read i) := by
    rw [Array.getElem?_toList]
    exact h.get?_eq hi
  have hverify := h.isOver.verify_path hblock (h.path?_opening hi)
  rw [h.length_blocks] at hverify
  refine Opening.check_eq_ok_iff.2 ⟨by rwa [hindex], Block.ofBytes?_toBytes _, ?_⟩
  rwa [hindex]

/-- What is revealed for a visit are blocks of the memory. -/
theorem exists_of_mem_openings (hi : i < p.params.blockCount) {o : Opening}
    (ho : o ∈ (p.stepAt i).openings) : ∃ j < p.params.blockCount, o = p.opening j := by
  unfold Step.openings at ho
  cases hs : p.memory.geometry.isSeed i with
  | true =>
    rw [stepAt_of_isSeed hs] at ho
    simp only [Option.toList_none, List.append_nil, List.mem_singleton] at ho
    exact ⟨i, hi, ho⟩
  | false =>
    rw [stepAt_of_not_isSeed hs] at ho
    simp only [Option.toList_some, List.cons_append, List.nil_append, List.mem_cons,
      List.not_mem_nil, or_false] at ho
    rcases ho with ho | ho | ho
    · exact ⟨i, hi, ho⟩
    · exact ⟨i - 1, by omega, ho⟩
    · exact ⟨p.referenceOf i, h.referenceOf_lt hi hs, ho⟩

variable {nonce : UInt32} {digest : WalkDigest} {visited : List Nat} {target : Target}

theorem exists_revealAll (nonce : UInt32) (digest : WalkDigest)
    (hv : ∀ i ∈ visited, i < p.params.blockCount) :
    ∃ known, (p.proofOf nonce digest visited).revealAll p.params p.challenge = .ok known ∧
      ∀ i ∈ visited, p.Knows known (p.stepAt i).openings := by
  have hcheck : ∀ o ∈ (visited.map p.stepAt).flatMap Step.openings,
      o.check p.params p.challenge p.tree.root = .ok (p.memory.read o.index.toNat) := by
    intro o ho
    obtain ⟨step, hstep, ho⟩ := List.mem_flatMap.1 ho
    obtain ⟨i, hi, rfl⟩ := List.mem_map.1 hstep
    obtain ⟨j, hj, rfl⟩ := h.exists_of_mem_openings (hv i hi) ho
    rw [h.index_opening hj]
    exact h.check_opening hj
  obtain ⟨known, hknown, hget, -⟩ := Proof.revealOpenings_eq_ok hcheck {}
  refine ⟨known, hknown, fun i hi o ho => hget o ?_⟩
  exact List.mem_flatMap.2 ⟨_, List.mem_map_of_mem hi, ho⟩

theorem selectedIndices_proofOf (hv : ∀ i ∈ visited, i < p.params.blockCount) :
    (p.proofOf nonce digest visited).selectedIndices.map UInt32.toNat = visited := by
  unfold Proof.selectedIndices proofOf
  rw [List.map_map, List.map_map]
  calc visited.map _ = visited.map id :=
        List.map_congr_left fun i hi => h.index_selected_stepAt (hv i hi)
    _ = visited := List.map_id visited

/-- The walk over what is known is the walk over the memory. -/
theorem walk_known (hwalk : p.walk nonce = (visited, some digest))
    (hknown : ∀ i ∈ visited, p.Knows known (p.stepAt i).openings) :
    MemoryHard.walk known.get? p.params p.challenge p.tree.root nonce = (visited, some digest) := by
  apply walkFrom_congr hwalk
  intro i hi
  have hlt := h.visited_lt hwalk i hi
  have hget := hknown i hi _ (p.opening_mem_openings i)
  rw [h.index_opening hlt] at hget
  rw [hget, h.get?_eq hlt]

/-- Derived again from what is known, a block is the one derived in the memory. -/
theorem derivedBlock_stepAt (hi : i < p.params.blockCount)
    (hknown : p.Knows known (p.stepAt i).openings) (h0 : Bytes) (job : JobWords) :
    Proof.derivedBlock p.params h0 job known (p.stepAt i) =
      .ok (p.memory.derivedAt (some job) h0 i) := by
  unfold Proof.derivedBlock Memory.derivedAt
  rw [h.index_selected_stepAt hi, ← h.geometry_eq]
  cases hs : p.memory.geometry.isSeed i with
  | true => simp [hs]
  | false =>
    rw [stepAt_of_not_isSeed hs] at hknown ⊢
    have hprevious := h.index_opening (i := i - 1) (by omega)
    have hreference := h.index_opening (h.referenceOf_lt hi hs)
    have hbefore := hknown (p.opening (i - 1)) (by simp [Step.openings])
    have hother := hknown (p.opening (p.referenceOf i)) (by simp [Step.openings])
    rw [hprevious] at hbefore
    rw [hreference] at hother
    unfold referenceOf at hreference hother
    dsimp only
    rw [hprevious, hbefore]
    dsimp only
    unfold referenceOf
    rw [hreference, hother]
    simp [hs]

theorem checkStep_stepAt (hi : i < p.params.blockCount)
    (hknown : p.Knows known (p.stepAt i).openings) (h0 : Bytes) (job : JobWords) :
    Proof.checkStep p.params h0 job known (p.stepAt i) =
      if p.memory.IsDerivedAt (some job) h0 i then .ok () else .error (.derivationMismatch i) := by
  have hget := hknown _ (p.opening_mem_openings i)
  rw [h.index_opening hi] at hget
  unfold Proof.checkStep
  rw [h.index_selected_stepAt hi]
  dsimp only
  rw [hget, h.derivedBlock_stepAt hi hknown]
  rfl

theorem checkDerivations_stepAt (hv : ∀ i ∈ visited, i < p.params.blockCount)
    (hknown : ∀ i ∈ visited, p.Knows known (p.stepAt i).openings) (h0 : Bytes) (job : JobWords) :
    Proof.checkDerivations p.params h0 job known (visited.map p.stepAt) =
      verdict p.memory job h0 visited := by
  induction visited with
  | nil => rfl
  | cons i visited ih =>
    have hstep := h.checkStep_stepAt (hv i List.mem_cons_self) (hknown i List.mem_cons_self) h0 job
    have hrest := ih (fun j hj => hv j (List.mem_cons_of_mem _ hj))
      fun j hj => hknown j (List.mem_cons_of_mem _ hj)
    unfold verdict at hrest ⊢
    rw [List.map_cons, Proof.checkDerivations, hstep, List.find?_cons]
    by_cases hd : p.memory.IsDerivedAt (some job) h0 i
    · simp [hd, hrest]
    · simp [hd]

/-- Whatever blocks the memory holds, the verdict on the proof of a winning nonce depends on the
blocks visited alone. -/
theorem verify_proofOf {header : Bytes} (hc : p.challenge = .ofHeader header)
    (hwalk : p.walk nonce = (visited, some digest)) (hmet : target.isMetBy digest = true) :
    (p.proofOf nonce digest visited).verify p.params header target =
      verdict p.memory (Challenge.ofHeader header).jobWords
        (prehash p.params (.ofHeader header)) visited := by
  have hv := h.visited_lt hwalk
  obtain ⟨known, hreveal, hknown⟩ := h.exists_revealAll nonce digest hv
  have hsteps : (p.proofOf nonce digest visited).steps.length = p.params.searchLength.toNat := by
    rw [proofOf, List.length_map]
    exact (walkFrom_visits hwalk).1
  have hcheck : (p.proofOf nonce digest visited).checkWalk p.params p.challenge target known =
      .ok () := by
    rw [Proof.checkWalk_eq_ok_iff hsteps, h.selectedIndices_proofOf hv]
    exact ⟨h.walk_known hwalk hknown, hmet⟩
  rw [hc] at hreveal hcheck
  rw [Proof.verify_eq_checkDerivations h.proofFault_eq hsteps h.isOver.length_root hreveal hcheck]
  exact h.checkDerivations_stepAt hv hknown _ _

end IsReady

end MemoryHard.Prover
