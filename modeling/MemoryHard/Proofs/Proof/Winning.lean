import MemoryHard.Proof.Race
import MemoryHard.Proofs.Proof.Assemble
import MemoryHard.Proofs.Proof.Walk

/-!
# MemoryHard.Proofs.Proof.Winning — what a search can find

Whoever searches, alone or in a race, finds nothing but the proofs of nonces that win.

* `Prover.IsWinning` — a nonce wins, and this is its proof;
* `IsCommitted.isWinning_iff` — what its proof is, where the tree is built over the memory;
* `isWinning_of_search` — a search by one worker;
* `Race.isFair_run`, `Race.isWinning_of_outcome` — a race under any schedule;
* `IsReady.exists_search` — with the easiest target the first nonce wins.
-/

namespace MemoryHard

theorem Bytes.atMost_replicate {n : Nat} {b : Bytes} (h : b.length ≤ n) :
    atMost b (List.replicate n 0xff) = true := by
  induction b generalizing n with
  | nil => rfl
  | cons x xs ih =>
    cases n with
    | zero => cases h
    | succ n =>
      rw [List.replicate_succ, atMost, ih (Nat.le_of_succ_le_succ h)]
      have hx := x.toNat_lt
      rcases Nat.lt_or_ge x.toNat 255 with hlt | hge
      · have hlt' : x < 0xff := UInt8.lt_iff_toNat_lt.2 hlt
        simp [hlt']
      · have heq : x = 0xff := UInt8.toNat_inj.1 (show x.toNat = 255 by omega)
        simp [heq]

/-- Every digest meets the easiest target. -/
theorem Target.isMetBy_easiest (digest : WalkDigest) : Target.easiest.isMetBy digest = true :=
  Bytes.atMost_replicate (Nat.le_of_eq digest.length_eq)

namespace Prover

variable [HashSuite] {p : Prover} {target : Target} {proof : Proof}

theorem win?_eq_some_iff {nonce : UInt32} {visited : List Nat}
    {digest : WalkDigest} :
    p.win? target nonce = some (visited, digest) ↔
      p.walk nonce = (visited, some digest) ∧ target.isMetBy digest = true := by
  unfold win?
  obtain ⟨visited', last⟩ := p.walk nonce
  cases last with
  | none => simp
  | some digest' =>
    by_cases hmet : target.isMetBy digest' = true
    · simp only [hmet, if_true, Option.some.injEq, Prod.mk.injEq]
      constructor
      · rintro ⟨rfl, rfl⟩
        exact ⟨⟨rfl, rfl⟩, hmet⟩
      · exact fun h => h.1
    · simp only [hmet, Bool.false_eq_true, if_false, reduceCtorEq, false_iff, not_and,
        Prod.mk.injEq, Option.some.injEq]
      rintro ⟨rfl, rfl⟩
      exact hmet

/-- The walk of a nonce stays inside the memory and ends at a digest that meets the target. -/
def Wins (p : Prover) (target : Target) (nonce : UInt32) : Prop :=
  ∃ visited digest, p.walk nonce = (visited, some digest) ∧ target.isMetBy digest = true

theorem wins_iff {nonce : UInt32} :
    p.Wins target nonce ↔ ∃ visited digest, p.win? target nonce = some (visited, digest) := by
  unfold Wins
  simp only [win?_eq_some_iff]

theorem not_wins_iff {nonce : UInt32} :
    ¬p.Wins target nonce ↔ p.win? target nonce = none := by
  rw [wins_iff, ← Option.not_isSome_iff_eq_none, Option.isSome_iff_exists, Prod.exists]

/-- Of the nonces from `lo` on and before `hi` this one is the first that wins. -/
def IsFirstWinner (p : Prover) (target : Target) (lo hi nonce : Nat) : Prop :=
  lo ≤ nonce ∧ nonce < hi ∧ p.Wins target (.ofNat nonce) ∧
    ∀ n, lo ≤ n → n < nonce → ¬p.Wins target (.ofNat n)

/-- A nonce wins, and this is its proof. -/
def IsWinning (p : Prover) (target : Target) (proof : Proof) : Prop :=
  ∃ nonce visited digest, p.win? target nonce = some (visited, digest) ∧
    p.assemble nonce digest visited = some proof

theorem isWinning_of_searchFrom {count : Nat} {nonce : UInt32}
    (h : p.searchFrom target count nonce = some proof) : p.IsWinning target proof := by
  induction count generalizing nonce with
  | zero => cases h
  | succ count ih =>
    rw [searchFrom] at h
    cases hwin : p.win? target nonce with
    | none =>
      rw [hwin] at h
      exact ih h
    | some win =>
      rw [hwin] at h
      exact ⟨nonce, win.1, win.2, hwin, h⟩

/-- What a search finds is the proof of a nonce that wins. -/
theorem isWinning_of_search {start stop : UInt32}
    {cancelled : Bool} (h : p.search target start stop cancelled = .ok (some proof)) :
    p.IsWinning target proof := by
  unfold search at h
  rw [Params.refusedSearch?_of_granted] at h
  split at h
  · cases h
  · dsimp only at h
    split_ifs at h
    · cases h
    · exact isWinning_of_searchFrom (Except.ok.inj h)

namespace IsCommitted

variable (h : p.IsCommitted)

/-- A walk that ends has stayed inside the memory. -/
theorem visited_lt {nonce : UInt32} {visited : List Nat} {digest : WalkDigest}
    (hw : p.walk nonce = (visited, some digest)) :
    ∀ i ∈ visited, i < p.memory.geometry.blockCount := by
  intro i hi
  obtain ⟨block, hblock⟩ := Option.isSome_iff_exists.1 ((walkFrom_visits hw).2 i hi)
  exact (Memory.get?_eq_some_iff.1 hblock).1

include h

/-- The proof of a nonce that wins is not missing. -/
theorem assemble_of_win {nonce : UInt32} {visited : List Nat} {digest : WalkDigest}
    (hwin : p.win? target nonce = some (visited, digest)) :
    p.assemble nonce digest visited = some (p.proofOf nonce digest visited) :=
  h.assemble_eq (visited_lt (win?_eq_some_iff.1 hwin).1) nonce digest

theorem isWinning_iff :
    p.IsWinning target proof ↔ ∃ nonce visited digest,
      p.walk nonce = (visited, some digest) ∧ target.isMetBy digest = true ∧
        proof = p.proofOf nonce digest visited := by
  unfold IsWinning
  constructor
  · rintro ⟨nonce, visited, digest, hwin, hproof⟩
    obtain ⟨hwalk, hmet⟩ := win?_eq_some_iff.1 hwin
    rw [h.assemble_of_win hwin] at hproof
    exact ⟨nonce, visited, digest, hwalk, hmet, (Option.some.inj hproof).symm⟩
  · rintro ⟨nonce, visited, digest, hwalk, hmet, rfl⟩
    have hwin := win?_eq_some_iff.2 ⟨hwalk, hmet⟩
    exact ⟨nonce, visited, digest, hwin, h.assemble_of_win hwin⟩

end IsCommitted

namespace IsReady

variable (h : p.IsReady)
include h

theorem blockCount_pos : 0 < p.params.blockCount := by
  rw [← h.blockCount_eq]
  exact h.isRegular.blockCount_pos

/-- The walk of a nonce that wins stays inside the memory. -/
theorem visited_lt {nonce : UInt32} {visited : List Nat} {digest : WalkDigest}
    (hw : p.walk nonce = (visited, some digest)) : ∀ i ∈ visited, i < p.params.blockCount :=
  h.blockCount_eq ▸ IsCommitted.visited_lt hw

theorem isWinning_iff :
    p.IsWinning target proof ↔ ∃ nonce visited digest,
      p.walk nonce = (visited, some digest) ∧ target.isMetBy digest = true ∧
        proof = p.proofOf nonce digest visited :=
  h.isCommitted.isWinning_iff

/-- Over a memory every walk ends. -/
theorem exists_walk (nonce : UInt32) :
    ∃ visited digest, p.walk nonce = (visited, some digest) := by
  refine exists_walkFrom h.blockCount_pos (fun i hi => ?_) _ _
  rw [h.get?_eq hi]
  rfl

/-- With the easiest target the first nonce of a search wins. -/
theorem exists_search (hroom : p.params.walkFits = true) {start stop : UInt32}
    (hlt : start < stop) : ∃ proof, p.search .easiest start stop false = .ok (some proof) := by
  obtain ⟨visited, digest, hwalk⟩ := h.exists_walk start
  have hwin : p.win? .easiest start = some (visited, digest) :=
    win?_eq_some_iff.2 ⟨hwalk, Target.isMetBy_easiest digest⟩
  obtain ⟨count, hcount⟩ : ∃ count, stop.toNat - start.toNat = count + 1 := by
    have hlt := UInt32.lt_iff_toNat_lt.1 hlt
    exact ⟨stop.toNat - start.toNat - 1, by omega⟩
  have hvalid : p.params.validateForProof = .ok () := by
    rw [Params.validateForProof, h.proofFault_eq]
  unfold search
  rw [hvalid, Params.refusedSearch?_of_granted, hcount, searchFrom, hwin]
  dsimp only
  rw [if_neg (UInt32.not_le.2 hlt), hroom, h.isCommitted.assemble_of_win hwin]
  exact ⟨_, rfl⟩

end IsReady

end Prover

/-! ## Races -/

namespace Race

open Prover

variable [HashSuite] {p : Prover} {target : Target} {r : Race}

/-- Every proof at hand in a race is the proof of a nonce that wins. -/
structure IsFair (r : Race) (p : Prover) (target : Target) : Prop where
  of_slot : ∀ proof, r.slot = some proof → p.IsWinning target proof
  of_workers : ∀ proof, Work.deliver proof ∈ r.workers → p.IsWinning target proof

theorem isFair_start (p : Prover) (target : Target) (chunks : List (Nat × Nat)) :
    (start chunks).IsFair p target := by
  refine ⟨fun proof h => (nomatch h), ?_⟩
  intro proof h
  obtain ⟨chunk, -, h⟩ := List.mem_map.1 h
  cases h

omit [HashSuite] in
theorem afterLook_ne_deliver (p : Prover) (next stop : Nat) (proof : Proof) :
    r.afterLook p next stop ≠ .deliver proof := by
  unfold afterLook
  split_ifs <;> exact fun h => nomatch h

theorem isWinning_of_afterAttempt {next stop : Nat} {proof : Proof}
    (h : afterAttempt p target next stop = .deliver proof) : p.IsWinning target proof := by
  unfold afterAttempt at h
  dsimp only at h
  cases hwin : p.win? target (UInt32.ofNat next) with
  | none =>
    rw [hwin] at h
    cases h
  | some win =>
    obtain ⟨visited, digest⟩ := win
    rw [hwin] at h
    cases hproof : p.assemble (UInt32.ofNat next) digest visited with
    | none =>
      simp only [hproof] at h
      cases h
    | some proof' =>
      simp only [hproof, Work.deliver.injEq] at h
      exact ⟨_, _, _, hwin, h ▸ hproof⟩

/-- A step of a worker keeps a race fair. -/
theorem isFair_step (h : r.IsFair p target) (number : Nat) :
    (r.step p target number).IsFair p target := by
  -- what is new among the workers is the work that the step ends with
  have hset {work : Work} (hw : ∀ proof, work = .deliver proof → p.IsWinning target proof)
      (proof : Proof) (hmem : Work.deliver proof ∈ r.workers.set number work) :
      p.IsWinning target proof := by
    rcases List.mem_or_eq_of_mem_set hmem with hmem | heq
    · exact h.of_workers proof hmem
    · exact hw proof heq.symm
  unfold step
  split
  · exact ⟨h.of_slot, hset fun proof hlook => absurd hlook (afterLook_ne_deliver p _ _ proof)⟩
  · exact ⟨h.of_slot, hset fun proof hproof => isWinning_of_afterAttempt hproof⟩
  · next proof hwork =>
    refine ⟨?_, hset fun proof' hrest => nomatch hrest⟩
    intro proof' hslot
    cases hold : r.slot with
    | some found => exact h.of_slot proof' (by simpa [hold] using hslot)
    | none =>
      rw [hold] at hslot
      cases hslot
      exact h.of_workers proof (List.mem_of_getElem? hwork)
  all_goals exact h

theorem isFair_turn (h : r.IsFair p target) (turn : Turn) :
    (r.turn p target turn).IsFair p target := by
  cases turn with
  | worker number => exact isFair_step h number
  | cancel => exact ⟨h.of_slot, h.of_workers⟩

/-- A race stays fair under any schedule. -/
theorem isFair_run (h : r.IsFair p target) (schedule : List Turn) :
    (r.run p target schedule).IsFair p target := by
  unfold run
  induction schedule generalizing r with
  | nil => exact h
  | cons turn schedule ih => exact ih (isFair_turn h turn)

omit [HashSuite] in
theorem outcome_eq_some_iff {proof : Proof} :
    r.outcome = .ok (some proof) ↔ .stopped ∉ r.workers ∧ r.slot = some proof := by
  unfold outcome
  by_cases hstopped : .stopped ∈ r.workers
  · simp [hstopped]
  · rw [if_neg hstopped]
    cases r.slot with
    | none => cases r.cancelled <;> simp
    | some found => simp [hstopped]

/-- What a race comes to is the proof of a nonce that wins. -/
theorem isWinning_of_outcome {chunks : List (Nat × Nat)} {schedule : List Turn} {proof : Proof}
    (h : ((start chunks).run p target schedule).outcome = .ok (some proof)) :
    p.IsWinning target proof := by
  have hslot := (outcome_eq_some_iff.1 h).2
  exact (isFair_run (isFair_start p target chunks) schedule).of_slot _ hslot

end Race

end MemoryHard
