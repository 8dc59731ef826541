import MemoryHard.Proofs.Proof.Chunks
import MemoryHard.Proofs.Proof.Winning

/-!
# MemoryHard.Proofs.Proof.Race — no nonce is lost in a race

A worker leaves a nonce behind only after its walk has been taken and has lost, and it gives up
only once there is a proof, the search is called off or its chunk is through.  So whatever the
schedule, a race that ends without a proof and without being called off has tried every nonce.

* `Race.HasLost` — some nonces are tried, and none of them wins;
* `Prover.IsFirstProof` — a proof is that of the first winner of a chunk;
* `Work.IsSound`, `Race.IsSound` — what is certain of a worker, and of a race;
* `Race.isSound_step`, `isSound_run`, `isSound_race` — a step keeps it, and so does a schedule;
* `Race.cancelled_run` — a race is called off by its schedule and by nothing else;
* `Race.hasLost_of_outcome` — what it says of the nonces that a race comes to nothing;
* `Race.outcome_eq_error`, `Race.outcome_eq_roomFailure` — why a race fails.
-/

namespace MemoryHard

variable [HashSuite] {p : Prover} {target : Target} {r r' : Race} {chunk : Nat × Nat}
  {chunks : List (Nat × Nat)} {number : Nat} {work : Work}

/-! ## What is certain -/

/-- A proof is that of the first winner of a chunk. -/
def Prover.IsFirstProof (p : Prover) (target : Target) (chunk : Nat × Nat) (proof : Proof) : Prop :=
  p.IsFirstWinner target chunk.1 chunk.2 proof.nonce.toNat ∧ p.IsWinning target proof

/-- The nonces from `lo` on and before `hi` are tried, and none of them wins. -/
def Race.HasLost (r : Race) (p : Prover) (target : Target) (lo hi : Nat) : Prop :=
  ∀ n, lo ≤ n → n < hi → n ∈ r.tried ∧ ¬p.Wins target (.ofNat n)

/-- What is certain of a worker with its chunk, whatever it is about to do. -/
def Work.IsSound (work : Work) (r : Race) (p : Prover) (target : Target) (chunk : Nat × Nat) :
    Prop :=
  match work with
  | .look next stop => stop = chunk.2 ∧ chunk.1 ≤ next ∧ r.HasLost p target chunk.1 next
  | .attempt next stop =>
    stop = chunk.2 ∧ chunk.1 ≤ next ∧ next < stop ∧ r.HasLost p target chunk.1 next
  | .deliver proof => p.IsFirstProof target chunk proof
  | .rest => r.slot.isSome ∨ r.cancelled = true ∨ r.HasLost p target chunk.1 chunk.2
  | .stopped => p.params.walkFits = false

/-- What is certain of a race over some chunks. -/
structure Race.IsSound (r : Race) (p : Prover) (target : Target) (chunks : List (Nat × Nat)) :
    Prop where
  length_eq : r.workers.length = chunks.length
  of_worker : ∀ (number : Nat) (chunk : Nat × Nat) (work : Work), chunks[number]? = some chunk →
    r.workers[number]? = some work → work.IsSound r p target chunk
  of_slot : ∀ proof, r.slot = some proof → ∃ chunk ∈ chunks, p.IsFirstProof target chunk proof

/-- A race goes on from another: nothing that is shared has been taken back. -/
structure Race.Extends (r r' : Race) : Prop where
  tried_subset : r.tried ⊆ r'.tried
  isSome_slot : r.slot.isSome → r'.slot.isSome
  cancelled_of : r.cancelled = true → r'.cancelled = true

namespace Race

theorem HasLost.mono {lo hi hi' : Nat} (h : r.HasLost p target lo hi)
    (hr : r.tried ⊆ r'.tried) (hhi : hi' ≤ hi) : r'.HasLost p target lo hi' := by
  intro n hn hn'
  obtain ⟨htried, hlost⟩ := h n hn (by omega)
  exact ⟨hr htried, hlost⟩

/-- The next nonce has been tried and has lost. -/
theorem HasLost.succ {lo next : Nat} (h : r.HasLost p target lo next)
    (hw : ¬p.Wins target (.ofNat next)) (hr : next :: r.tried ⊆ r'.tried) :
    r'.HasLost p target lo (next + 1) := by
  intro n hn hn'
  by_cases heq : n = next
  · exact heq ▸ ⟨hr List.mem_cons_self, hw⟩
  · obtain ⟨htried, hlost⟩ := h n hn (by omega)
    exact ⟨hr (List.mem_cons_of_mem _ htried), hlost⟩

end Race

theorem Work.IsSound.mono (h : work.IsSound r p target chunk) (hr : r.Extends r') :
    work.IsSound r' p target chunk := by
  have hlost {hi : Nat} (h : r.HasLost p target chunk.1 hi) : r'.HasLost p target chunk.1 hi :=
    h.mono hr.tried_subset (Nat.le_refl _)
  cases work with
  | look next stop => exact ⟨h.1, h.2.1, hlost h.2.2⟩
  | attempt next stop => exact ⟨h.1, h.2.1, h.2.2.1, hlost h.2.2.2⟩
  | deliver proof => exact h
  | rest => exact Or.imp hr.isSome_slot (Or.imp hr.cancelled_of hlost) h
  | stopped => exact h

namespace Race

open Prover

/-! ## A step -/

/-- A race in which a worker goes on to other work is as certain as before, if the work is and if
the slot is. -/
theorem IsSound.set (h : r.IsSound p target chunks) (hr : r.Extends r')
    (hworkers : r'.workers = r.workers.set number work)
    (hwork : ∀ chunk, chunks[number]? = some chunk → work.IsSound r' p target chunk)
    (hslot : ∀ proof, r'.slot = some proof → ∃ chunk ∈ chunks, p.IsFirstProof target chunk proof) :
    r'.IsSound p target chunks := by
  refine ⟨by rw [hworkers, List.length_set, h.length_eq], ?_, hslot⟩
  intro other chunk work' hchunk hwork'
  rw [hworkers, List.getElem?_set] at hwork'
  -- it is the worker that goes on, or one that stays where it is
  split_ifs at hwork' with heq hlt
  · cases hwork'
    exact hwork chunk (heq ▸ hchunk)
  · exact (h.of_worker other chunk work' hchunk hwork').mono hr

theorem isSound_afterLook {next stop : Nat}
    (h : (Work.look next stop).IsSound r p target chunk) :
    (r.afterLook p next stop).IsSound r p target chunk := by
  obtain ⟨hstop, hle, hlost⟩ := h
  unfold afterLook
  split_ifs with hfull hrest
  · -- the worker stops
    show p.params.walkFits = false
    simpa using hfull
  · -- it rests
    rcases hrest with hdone | hslot | hcancelled
    · exact .inr (.inr (hlost.mono (List.Subset.refl _) (hstop ▸ hdone)))
    · exact .inl hslot
    · exact .inr (.inl hcancelled)
  · -- it takes a walk
    rw [not_or] at hrest
    exact ⟨hstop, hle, Nat.not_le.1 hrest.1, hlost⟩

/-- A worker that takes a walk tries the nonce; it goes on if the nonce loses, and has a proof if
it wins. -/
theorem isSound_afterAttempt {next stop : Nat} (hc : p.IsCommitted)
    (hlt : next < UInt32.size) (h : (Work.attempt next stop).IsSound r p target chunk)
    (hr : next :: r.tried ⊆ r'.tried) :
    (afterAttempt p target next stop).IsSound r' p target chunk := by
  obtain ⟨hstop, hle, hnext, hlost⟩ := h
  unfold afterAttempt
  dsimp only
  cases hwin : p.win? target (.ofNat next) with
  | none => exact ⟨hstop, Nat.le_succ_of_le hle, hlost.succ (not_wins_iff.2 hwin) hr⟩
  | some win =>
    obtain ⟨visited, digest⟩ := win
    have hproof := hc.assemble_of_win hwin
    dsimp only
    rw [hproof]
    have hnonce : (p.proofOf (.ofNat next) digest visited).nonce.toNat = next :=
      UInt32.toNat_ofNat_of_lt' hlt
    refine ⟨?_, _, _, _, hwin, hproof⟩
    rw [hnonce]
    exact ⟨hle, hstop ▸ hnext, wins_iff.2 ⟨_, _, hwin⟩, fun n hn hn' => (hlost n hn hn').2⟩

/-- Whoever takes a step, what is certain of the race stays so. -/
theorem isSound_step (hc : p.IsCommitted) (hb : ∀ chunk ∈ chunks, chunk.2 ≤ UInt32.size)
    (h : r.IsSound p target chunks) (number : Nat) :
    (r.step p target number).IsSound p target chunks := by
  unfold step
  split
  · next next stop hwork =>
    exact h.set ⟨List.Subset.refl _, id, id⟩ rfl
      (fun chunk hchunk => isSound_afterLook (h.of_worker _ _ _ hchunk hwork)) h.of_slot
  · next next stop hwork =>
    refine h.set ⟨List.subset_cons_self _ _, id, id⟩ rfl ?_ h.of_slot
    intro chunk hchunk
    have hsound := h.of_worker _ _ _ hchunk hwork
    obtain ⟨hstop, -, hnext, -⟩ := id hsound
    have hlt := hb chunk (List.mem_of_getElem? hchunk)
    exact isSound_afterAttempt hc (by omega) hsound (List.Subset.refl _)
  · next proof hwork =>
    -- the first proof in the slot stays there, whoever comes later
    refine h.set ⟨List.Subset.refl _, ?_, id⟩ rfl ?_ ?_
    · intro hsome
      cases hslot : r.slot <;> simp
    · intro chunk hchunk
      cases hslot : r.slot <;> simp [Work.IsSound]
    · intro found hfound
      cases hslot : r.slot with
      | some first => exact h.of_slot found (by simpa [hslot] using hfound)
      | none =>
        rw [hslot] at hfound
        cases hfound
        obtain ⟨hlt, -⟩ := List.getElem?_eq_some_iff.1 hwork
        rw [h.length_eq] at hlt
        have hchunk := List.getElem?_eq_getElem hlt
        exact ⟨_, List.getElem_mem hlt, h.of_worker _ _ _ hchunk hwork⟩
  all_goals exact h

/-! ## A schedule -/

theorem isSound_start (p : Prover) (target : Target) (chunks : List (Nat × Nat)) :
    (start chunks).IsSound p target chunks := by
  refine ⟨List.length_map _, ?_, fun proof h => nomatch h⟩
  intro number chunk work hchunk hwork
  have hlook : work = .look chunk.1 chunk.2 := by simpa [start, hchunk] using hwork.symm
  subst hlook
  refine ⟨rfl, Nat.le_refl _, ?_⟩
  intro n hn hn'
  omega

theorem isSound_turn (hc : p.IsCommitted) (hb : ∀ chunk ∈ chunks, chunk.2 ≤ UInt32.size)
    (h : r.IsSound p target chunks) (turn : Turn) :
    (r.turn p target turn).IsSound p target chunks := by
  cases turn with
  | worker number => exact isSound_step hc hb h number
  | cancel =>
    refine ⟨h.length_eq, ?_, h.of_slot⟩
    intro number chunk work hchunk hwork
    exact (h.of_worker _ _ _ hchunk hwork).mono ⟨List.Subset.refl _, id, fun _ => rfl⟩

theorem isSound_run (hc : p.IsCommitted) (hb : ∀ chunk ∈ chunks, chunk.2 ≤ UInt32.size)
    (h : r.IsSound p target chunks) (schedule : List Turn) :
    (r.run p target schedule).IsSound p target chunks := by
  unfold run
  induction schedule generalizing r with
  | nil => exact h
  | cons turn schedule ih => exact ih (isSound_turn hc hb h turn)

theorem isSound_race (hc : p.IsCommitted) (target : Target) (start stop : UInt32)
    (schedule : List Turn) : (p.race target start stop schedule).IsSound p target
      (nonceChunks p.params.jobs.toNat start.toNat stop.toNat) := by
  refine isSound_run hc ?_ (isSound_start p target _) schedule
  intro chunk hchunk
  have hstop := stop.toNat_lt
  obtain ⟨-, -, hle⟩ := bounds_of_mem_nonceChunks hchunk
  exact Nat.le_of_lt (Nat.lt_of_le_of_lt hle hstop)

theorem cancelled_step (number : Nat) : (r.step p target number).cancelled = r.cancelled := by
  unfold step
  split <;> rfl

theorem cancelled_run (schedule : List Turn) :
    (r.run p target schedule).cancelled = true ↔ r.cancelled = true ∨ Turn.cancel ∈ schedule := by
  unfold run
  induction schedule generalizing r with
  | nil => simp
  | cons turn schedule ih =>
    rw [List.foldl_cons, ih]
    cases turn with
    | worker number => simp [turn, cancelled_step]
    | cancel => simp [turn]

theorem length_workers_run (schedule : List Turn) :
    (r.run p target schedule).workers.length = r.workers.length := by
  unfold run
  induction schedule generalizing r with
  | nil => rfl
  | cons turn schedule ih =>
    rw [List.foldl_cons, ih]
    cases turn with
    | cancel => rfl
    | worker number =>
      show (r.step p target number).workers.length = _
      unfold step
      split <;> simp

/-! ## What a race comes to -/

omit [HashSuite] in
theorem outcome_eq_none_iff :
    r.outcome = .ok none ↔ .stopped ∉ r.workers ∧ r.slot = none ∧ r.cancelled = false := by
  unfold outcome
  by_cases hstopped : .stopped ∈ r.workers
  · simp [hstopped]
  · rw [if_neg hstopped]
    cases r.slot with
    | none => cases r.cancelled <;> simp [hstopped]
    | some found => simp

omit [HashSuite] in
theorem outcome_eq_error_iff {failure : Failure} :
    r.outcome = .error failure ↔
      .stopped ∈ r.workers ∧ failure = roomFailure r.workers.length ∨
      .stopped ∉ r.workers ∧ failure = .cancelled ∧ r.slot = none ∧ r.cancelled = true := by
  unfold outcome
  by_cases hstopped : .stopped ∈ r.workers
  · simp [hstopped, eq_comm (a := failure)]
  · rw [if_neg hstopped]
    cases r.slot with
    | none => cases r.cancelled <;> simp [hstopped, eq_comm (a := failure)]
    | some found => simp [hstopped]

omit [HashSuite] in
theorem isOver_iff : r.isOver = true ↔ ∀ work ∈ r.workers, work = .rest ∨ work = .stopped := by
  have hdone (work : Work) : work.isDone = true ↔ work = .rest ∨ work = .stopped := by
    cases work <;> simp [Work.isDone]
  simp only [isOver, List.all_eq_true, hdone]

/-- No worker stops where there is room for a walk. -/
theorem IsSound.not_mem_stopped (h : r.IsSound p target chunks) (hroom : p.params.walkFits = true) :
    .stopped ∉ r.workers := by
  intro hmem
  obtain ⟨number, hlt, hget⟩ := List.getElem_of_mem hmem
  have hlt' : number < chunks.length := by rwa [← h.length_eq]
  have hfull : p.params.walkFits = false := h.of_worker number _ .stopped
    (List.getElem?_eq_getElem hlt') (by rw [List.getElem?_eq_getElem hlt, hget])
  rw [hroom] at hfull
  cases hfull

/-- When all workers are done, without a proof and without being called off, every chunk is
through. -/
theorem IsSound.hasLost (h : r.IsSound p target chunks) (hover : r.isOver = true)
    (houtcome : r.outcome = .ok none) (hchunk : chunk ∈ chunks) :
    r.HasLost p target chunk.1 chunk.2 := by
  obtain ⟨hstopped, hslot, hcancelled⟩ := outcome_eq_none_iff.1 houtcome
  obtain ⟨number, hlt, hget⟩ := List.getElem_of_mem hchunk
  have hlt' : number < r.workers.length := by rwa [h.length_eq]
  have hmem := List.getElem_mem hlt'
  have hrest : r.workers[number] = .rest :=
    (isOver_iff.1 hover _ hmem).resolve_right fun heq => hstopped (heq ▸ hmem)
  have hsound := h.of_worker number chunk .rest (by rw [List.getElem?_eq_getElem hlt, hget])
    (by rw [List.getElem?_eq_getElem hlt', hrest])
  rcases hsound with hsome | hraised | hlost
  · rw [hslot] at hsome
    cases hsome
  · rw [hcancelled] at hraised
    cases hraised
  · exact hlost

variable {start stop : UInt32} {schedule : List Turn}

/-- A race that comes to nothing has tried all nonces of the search, and none of them wins. -/
theorem hasLost_of_outcome (hc : p.IsCommitted)
    (hover : (p.race target start stop schedule).isOver = true)
    (houtcome : (p.race target start stop schedule).outcome = .ok none) :
    (p.race target start stop schedule).HasLost p target start.toNat stop.toNat := by
  intro n hn hn'
  obtain ⟨chunk, hchunk, hle, hlt⟩ : ∃ chunk ∈ nonceChunks p.params.jobs.toNat start.toNat
      stop.toNat, chunk.1 ≤ n ∧ n < chunk.2 := mem_chunk_iff.2 ⟨hn, hn'⟩
  exact (isSound_race hc target start stop schedule).hasLost hover houtcome hchunk n hle hlt

theorem isFirstProof_of_outcome (hc : p.IsCommitted) {proof : Proof}
    (houtcome : (p.race target start stop schedule).outcome = .ok (some proof)) :
    ∃ chunk ∈ nonceChunks p.params.jobs.toNat start.toNat stop.toNat,
      p.IsFirstProof target chunk proof :=
  (isSound_race hc target start stop schedule).of_slot proof (outcome_eq_some_iff.1 houtcome).2

theorem cancelled_race :
    (p.race target start stop schedule).cancelled = true ↔ Turn.cancel ∈ schedule := by
  unfold Prover.race
  rw [cancelled_run]
  simp [Race.start]

/-- Where there is room for a walk, a race fails only if it is called off. -/
theorem outcome_eq_error (hc : p.IsCommitted) (hroom : p.params.walkFits = true) {failure : Failure}
    (h : (p.race target start stop schedule).outcome = .error failure) :
    failure = .cancelled ∧ .cancel ∈ schedule := by
  have hstopped := (isSound_race hc target start stop schedule).not_mem_stopped hroom
  rcases outcome_eq_error_iff.1 h with ⟨hmem, -⟩ | ⟨-, hfailure, -, hcancelled⟩
  · exact absurd hmem hstopped
  · exact ⟨hfailure, cancelled_race.1 hcancelled⟩

/-! ## Without room for a walk -/

/-- No worker has got beyond its first look. -/
def IsStuck (r : Race) : Prop :=
  ∀ work ∈ r.workers, work = .stopped ∨ ∃ next stop, work = .look next stop

theorem IsStuck.step (h : r.IsStuck) (hfull : p.params.walkFits = false) (number : Nat) :
    (r.step p target number).IsStuck := by
  cases hget : r.workers[number]? with
  | none =>
    unfold Race.step
    rwa [hget]
  | some work =>
    unfold Race.step
    rcases h work (List.mem_of_getElem? hget) with rfl | ⟨next, stop, rfl⟩
    · rwa [hget]
    · rw [hget]
      have hstops : r.afterLook p next stop = .stopped := if_pos (by simp [hfull])
      intro work hwork
      rcases List.mem_or_eq_of_mem_set hwork with hmem | heq
      · exact h work hmem
      · exact .inl (heq.trans hstops)

theorem IsStuck.run (h : r.IsStuck) (hfull : p.params.walkFits = false) (schedule : List Turn) :
    (r.run p target schedule).IsStuck := by
  unfold Race.run
  induction schedule generalizing r with
  | nil => exact h
  | cons turn schedule ih =>
    cases turn with
    | worker number => exact ih (h.step hfull number)
    | cancel => exact ih h

/-- Where there is no room for a walk, a race fails, whatever its schedule. -/
theorem outcome_eq_roomFailure (hfull : p.params.walkFits = false) (hlt : start < stop)
    (hover : (p.race target start stop schedule).isOver = true) :
    (p.race target start stop schedule).outcome =
      .error (roomFailure (searchWorkers p.params.jobs.toNat (stop.toNat - start.toNat))) := by
  have hless := UInt32.lt_iff_toNat_lt.1 hlt
  have hstuck : (p.race target start stop schedule).IsStuck := by
    refine IsStuck.run ?_ hfull schedule
    intro work hwork
    obtain ⟨chunk, -, rfl⟩ := List.mem_map.1 hwork
    exact .inr ⟨_, _, rfl⟩
  have hlength : (p.race target start stop schedule).workers.length =
      (nonceChunks p.params.jobs.toNat start.toNat stop.toNat).length :=
    (length_workers_run schedule).trans (List.length_map _)
  -- the first nonce is in some chunk, so there is a worker at all
  obtain ⟨chunk, hchunk, -⟩ : ∃ chunk ∈ nonceChunks p.params.jobs.toNat start.toNat stop.toNat,
      chunk.1 ≤ start.toNat ∧ start.toNat < chunk.2 := mem_chunk_iff.2 ⟨Nat.le_refl _, hless⟩
  have hpos : 0 < (p.race target start stop schedule).workers.length :=
    hlength ▸ List.length_pos_of_mem hchunk
  obtain ⟨work, hwork⟩ := List.exists_mem_of_length_pos hpos
  -- it has not got beyond its look, and of those who have not only the stopped are done
  have hstopped : work = .stopped := by
    rcases hstuck work hwork with hstopped | ⟨next, stop, hlook⟩
    · exact hstopped
    · rcases isOver_iff.1 hover work hwork with hrest | hstopped
      · cases hlook.symm.trans hrest
      · exact hstopped
  rw [outcome, if_pos (hstopped ▸ hwork), hlength, roomFailure_length_nonceChunks hless]

end Race

end MemoryHard
