import MemoryHard.Digest.Standard
import MemoryHard.Proofs.Proof.Completeness
import MemoryHard.Proofs.Proof.Turns

/-!
# MemoryHard.Proofs.Proof.Parallel — a search by several workers finds what there is to find

However many workers share a search and however their steps fall, as long as there is room for a
walk, a search that is not called off finds a proof whenever some nonce wins.  It may find another
one than a search in ascending order does, unless only one nonce wins or there is but one worker.

* `Prover.IsOverMemory` — the tree is built over the memory, which has a valid shape;
* `Prover.searchFrom_eq_some`, `searchFrom_eq_none` — a search in ascending order finds the first
  winner, if there is one;
* `Race.outcome_eq_searchFrom` — when a race finds what a search in ascending order finds;
* `Prover.searchUnder?_eq_some_iff` — a search under a schedule is a race that is over;
* `Prover.searchUnder?_inv` — what a search has come to when it succeeds;
* `Prover.searchUnder?_eq_search` — when it comes to what a lone worker comes to;
* `Race.no_nonce_lost` — all that is certain of such a search, whatever its schedule.
-/

namespace MemoryHard

section
variable [HashSuite] {p : Prover} {target : Target} {start stop : UInt32} {schedule : List Turn}
  {proof : Proof}

namespace Prover

/-- The memory has the shape that some valid parameters give it, and the tree is built over it. -/
structure IsOverMemory (p : Prover) : Prop where
  geometry_eq : ∃ q : Params, q.validate = .ok () ∧ p.memory.geometry = q.geometry
  tree_eq : ∃ width c jobs, HashTree.ofBlocks width c p.memory.blocks.toList jobs = .ok p.tree

theorem isOverMemory_of_build (h : p.IsReady)
    (ht : HashTree.build p.params p.challenge p.memory = .ok p.tree) : p.IsOverMemory := by
  have hp := Params.validate_eq_ok_iff.2 (Params.proofFault?_eq_none_iff.1 h.proofFault_eq).1
  refine ⟨⟨p.params, hp, h.geometry_eq⟩, p.params.nodeWidth, p.challenge, p.params.jobs.toNat, ?_⟩
  unfold HashTree.build at ht
  rwa [hp] at ht

theorem IsOverMemory.isCommitted (h : p.IsOverMemory) : p.IsCommitted := by
  obtain ⟨q, hq, hgeometry⟩ := h.geometry_eq
  obtain ⟨width, c, jobs, htree⟩ := h.tree_eq
  refine ⟨?_, c, width, HashTree.isOver_of_ofBlocks htree⟩
  rw [hgeometry]
  exact Params.isRegular_geometry (Params.validate_eq_ok_iff.1 hq)

omit [HashSuite] in
theorem nonce_of_assemble {nonce : UInt32} {visited : List Nat} {digest : WalkDigest}
    (h : p.assemble nonce digest visited = some proof) : proof.nonce = nonce := by
  unfold assemble at h
  obtain ⟨steps, -, h⟩ := Option.bind_eq_some_iff.1 h
  cases h
  rfl

/-- Some nonce from `lo` on and before `hi` wins. -/
def HasWinner (p : Prover) (target : Target) (lo hi : Nat) : Prop :=
  ∃ n, lo ≤ n ∧ n < hi ∧ p.Wins target (.ofNat n)

/-- Just one nonce from `lo` on and before `hi` wins. -/
def HasOneWinner (p : Prover) (target : Target) (lo hi : Nat) : Prop :=
  p.HasWinner target lo hi ∧
    ∀ m n, lo ≤ m → m < n → n < hi → ¬(p.Wins target (.ofNat m) ∧ p.Wins target (.ofNat n))

/-! ## A search in ascending order -/

/-- A search in ascending order finds the first winner. -/
theorem searchFrom_eq_some (lo count : Nat)
    (h : p.IsFirstProof target (lo, lo + count) proof) :
    p.searchFrom target count (.ofNat lo) = some proof := by
  obtain ⟨⟨hle, hlt, -, hlost⟩, nonce, visited, digest, hwin, hproof⟩ := h
  rw [nonce_of_assemble hproof] at hle hlt hlost
  dsimp only at hle hlt hlost
  induction count generalizing lo with
  | zero => exact absurd hlt (Nat.not_lt.2 hle)
  | succ count ih =>
    rw [searchFrom]
    by_cases hfirst : lo = nonce.toNat
    · rw [hfirst, UInt32.ofNat_toNat, hwin]
      exact hproof
    · have hlo : lo + 1 ≤ nonce.toNat := Nat.lt_of_le_of_ne hle hfirst
      rw [not_wins_iff.1 (hlost lo (Nat.le_refl _) hlo)]
      have hrest := ih (lo + 1) (fun n hn => hlost n (by omega)) (by omega) hlo
      rwa [UInt32.ofNat_add] at hrest

theorem searchFrom_eq_none (lo count : Nat)
    (h : ∀ n, lo ≤ n → n < lo + count → ¬p.Wins target (.ofNat n)) :
    p.searchFrom target count (.ofNat lo) = none := by
  induction count generalizing lo with
  | zero => rfl
  | succ count ih =>
    rw [searchFrom, not_wins_iff.1 (h lo (Nat.le_refl _) (by omega))]
    have hrest := ih (lo + 1) fun n hn hn' => h n (by omega) (by omega)
    rwa [UInt32.ofNat_add] at hrest

theorem searchFrom_with_jobs (jobs : UInt64) (count : Nat) (nonce : UInt32) :
    ({ p with params := { p.params with jobs := jobs } } : Prover).searchFrom target count nonce =
      p.searchFrom target count nonce := by
  induction count generalizing nonce with
  | zero => rfl
  | succ count ih =>
    rw [searchFrom, searchFrom, ih]
    rfl

theorem search_eq (hp : p.params.validateForProof = .ok ()) (hlt : start < stop)
    (hroom : p.params.walkFits = true) :
    p.search target start stop false =
      .ok (p.searchFrom target (stop.toNat - start.toNat) start) := by
  unfold search
  rw [hp, hroom, Params.refusedSearch?_of_granted]
  dsimp only
  rw [if_neg (UInt32.not_le.2 hlt)]
  rfl

/-- The first winner of a chunk is the first winner of all nonces if none of them wins that comes
before the chunk. -/
theorem IsFirstProof.widen {lo hi : Nat} {chunk : Nat × Nat}
    (h : p.IsFirstProof target chunk proof) (hlo : lo ≤ chunk.1) (hhi : chunk.2 ≤ hi)
    (hlost : ∀ n, lo ≤ n → n < chunk.1 → ¬p.Wins target (.ofNat n)) :
    p.IsFirstProof target (lo, hi) proof := by
  obtain ⟨⟨hle, hlt, hwins, hfirst⟩, hproof⟩ := h
  refine ⟨⟨Nat.le_trans hlo hle, Nat.lt_of_lt_of_le hlt hhi, hwins, ?_⟩, hproof⟩
  intro n hn hn'
  rcases Nat.lt_or_ge n chunk.1 with hbefore | hin
  · exact hlost n hn hbefore
  · exact hfirst n hin hn'

end Prover

/-! ## A race -/

namespace Race

open Prover

theorem isFirstProof_of_one (hc : p.IsCommitted) (hlt : start < stop)
    (hone : searchWorkers p.params.jobs.toNat (stop.toNat - start.toNat) = 1)
    (houtcome : (p.race target start stop schedule).outcome = .ok (some proof)) :
    p.IsFirstProof target (start.toNat, stop.toNat) proof := by
  obtain ⟨chunk, hchunk, hfirst⟩ := isFirstProof_of_outcome hc houtcome
  rw [nonceChunks_of_one (UInt32.lt_iff_toNat_lt.1 hlt) hone, List.mem_singleton] at hchunk
  exact hchunk ▸ hfirst

theorem isFirstProof_of_unique (hc : p.IsCommitted)
    (hunique : p.HasOneWinner target start.toNat stop.toNat)
    (houtcome : (p.race target start stop schedule).outcome = .ok (some proof)) :
    p.IsFirstProof target (start.toNat, stop.toNat) proof := by
  obtain ⟨chunk, hchunk, hfirst⟩ := isFirstProof_of_outcome hc houtcome
  obtain ⟨hlo, -, hhi⟩ := bounds_of_mem_nonceChunks hchunk
  -- a winner before the chunk would be a second one
  refine hfirst.widen hlo hhi fun n hn hn' hwins => ?_
  obtain ⟨⟨hle, hlt, hwins', -⟩, -⟩ := hfirst
  exact hunique.2 n _ hn (Nat.lt_of_lt_of_le hn' hle) (Nat.lt_of_lt_of_le hlt hhi) ⟨hwins, hwins'⟩

/-- Unless a race fails, it finds what a search in ascending order finds, if there is but one worker
or one winner. -/
theorem searchFrom_eq_of_outcome (hc : p.IsCommitted) (hlt : start < stop) {found : Option Proof}
    (hover : (p.race target start stop schedule).isOver = true)
    (houtcome : (p.race target start stop schedule).outcome = .ok found)
    (hone : searchWorkers p.params.jobs.toNat (stop.toNat - start.toNat) = 1 ∨
      p.HasOneWinner target start.toNat stop.toNat) :
    p.searchFrom target (stop.toNat - start.toNat) start = found := by
  have hstop : start.toNat + (stop.toNat - start.toNat) = stop.toNat :=
    Nat.add_sub_cancel' (Nat.le_of_lt (UInt32.lt_iff_toNat_lt.1 hlt))
  cases found with
  | none =>
    have hlost := hasLost_of_outcome hc hover houtcome
    have hnone := searchFrom_eq_none start.toNat (stop.toNat - start.toNat)
      fun n hn hn' => (hlost n hn (hstop ▸ hn')).2
    rwa [UInt32.ofNat_toNat] at hnone
  | some proof =>
    have hfirst : p.IsFirstProof target (start.toNat, stop.toNat) proof := by
      rcases hone with hone | hunique
      · exact isFirstProof_of_one hc hlt hone houtcome
      · exact isFirstProof_of_unique hc hunique houtcome
    rw [← hstop] at hfirst
    have hsome := searchFrom_eq_some _ _ hfirst
    rwa [UInt32.ofNat_toNat] at hsome

theorem exists_outcome (hc : p.IsCommitted) (hroom : p.params.walkFits = true)
    (hcancel : .cancel ∉ schedule) :
    ∃ found, (p.race target start stop schedule).outcome = .ok found := by
  cases houtcome : (p.race target start stop schedule).outcome with
  | ok found => exact ⟨found, rfl⟩
  | error failure => exact absurd (outcome_eq_error hc hroom houtcome).2 hcancel

/-- A race that is not called off finds what a search in ascending order finds, if there is but
one worker or one winner. -/
theorem outcome_eq_searchFrom (hc : p.IsCommitted) (hroom : p.params.walkFits = true)
    (hlt : start < stop)
    (hover : (p.race target start stop schedule).isOver = true) (hcancel : .cancel ∉ schedule)
    (hone : searchWorkers p.params.jobs.toNat (stop.toNat - start.toNat) = 1 ∨
      p.HasOneWinner target start.toNat stop.toNat) :
    (p.race target start stop schedule).outcome =
      .ok (p.searchFrom target (stop.toNat - start.toNat) start) := by
  obtain ⟨found, houtcome⟩ := exists_outcome hc hroom hcancel
  rw [houtcome, searchFrom_eq_of_outcome hc hlt hover houtcome hone]

/-- Unless a race fails, it finds a proof just if some nonce wins. -/
theorem outcome_iff_hasWinner (hc : p.IsCommitted) {found : Option Proof}
    (hover : (p.race target start stop schedule).isOver = true)
    (houtcome : (p.race target start stop schedule).outcome = .ok found) :
    found.isSome ↔ p.HasWinner target start.toNat stop.toNat := by
  cases found with
  | none =>
    have hlost := hasLost_of_outcome hc hover houtcome
    constructor
    · intro h
      cases h
    · rintro ⟨n, hle, hlt, hwins⟩
      exact absurd hwins (hlost n hle hlt).2
  | some proof =>
    obtain ⟨chunk, hchunk, ⟨hle, hlt, hwins, -⟩, -⟩ := isFirstProof_of_outcome hc houtcome
    obtain ⟨hlo, -, hhi⟩ := bounds_of_mem_nonceChunks hchunk
    exact ⟨fun _ => ⟨_, Nat.le_trans hlo hle, Nat.lt_of_lt_of_le hlt hhi, hwins⟩, fun _ => rfl⟩

theorem exists_outcome_iff (hc : p.IsCommitted) (hroom : p.params.walkFits = true)
    (hover : (p.race target start stop schedule).isOver = true) (hcancel : .cancel ∉ schedule) :
    (∃ proof, (p.race target start stop schedule).outcome = .ok (some proof)) ↔
      p.HasWinner target start.toNat stop.toNat := by
  obtain ⟨found, houtcome⟩ := exists_outcome hc hroom hcancel
  rw [← outcome_iff_hasWinner hc hover houtcome, houtcome, Option.isSome_iff_exists]
  simp

end Race

/-! ## A search under a schedule -/

namespace Prover

variable {outcome : Except Failure (Option Proof)} {refusals : Refusals}

theorem search_of_empty (hp : p.params.validateForProof = .ok ()) (hempty : stop ≤ start)
    (cancelled : Bool) (refusals : Refusals) :
    p.search target start stop cancelled refusals = .ok none := by
  unfold search
  rw [hp]
  exact if_pos hempty

theorem searchUnder?_of_empty (hp : p.params.validateForProof = .ok ()) (hempty : stop ≤ start) :
    p.searchUnder? target start stop schedule refusals = some (.ok none) := by
  unfold searchUnder?
  rw [hp]
  exact if_pos hempty

/-- A search whose workers are started comes to something just if its race is over, and then to
what the race comes to. -/
theorem searchUnder?_eq_some_iff (hp : p.params.validateForProof = .ok ()) (hlt : start < stop)
    (hstart : p.params.refusedSearch? start stop refusals = none) :
    p.searchUnder? target start stop schedule refusals = some outcome ↔
      (p.race target start stop schedule).isOver = true ∧
        (p.race target start stop schedule).outcome = outcome := by
  unfold searchUnder?
  rw [hp, hstart]
  dsimp only
  rw [if_neg (UInt32.not_le.2 hlt)]
  cases (p.race target start stop schedule).isOver <;> simp

theorem isSome_searchUnder? (hp : p.params.validateForProof = .ok ()) (hlt : start < stop)
    (hstart : p.params.refusedSearch? start stop refusals = none) :
    (p.searchUnder? target start stop schedule refusals).isSome ↔
      (p.race target start stop schedule).isOver = true := by
  rw [Option.isSome_iff_exists]
  simp only [searchUnder?_eq_some_iff hp hlt hstart]
  simp

/-- A search one of whose workers cannot be started fails. -/
theorem searchUnder?_of_refused (hp : p.params.validateForProof = .ok ()) (hlt : start < stop)
    {failure : Failure} (hrefused : p.params.refusedSearch? start stop refusals = some failure) :
    p.searchUnder? target start stop schedule refusals = some (.error failure) := by
  unfold searchUnder?
  rw [hp, hrefused]
  exact if_neg (UInt32.not_le.2 hlt)

/-- A search that succeeds has no nonces to try, or its race has come to what it says, and there was
room for its walks. -/
theorem searchUnder?_inv {found : Option Proof}
    (h : p.searchUnder? target start stop schedule refusals = some (.ok found)) :
    p.params.validateForProof = .ok () ∧
      (stop ≤ start ∧ found = none ∨
        start < stop ∧ p.params.walkFits = true ∧
          (p.race target start stop schedule).isOver = true ∧
          (p.race target start stop schedule).outcome = .ok found) := by
  cases hvalid : p.params.validateForProof with
  | error failure =>
    rw [searchUnder?, hvalid] at h
    cases h
  | ok _ =>
    refine ⟨rfl, ?_⟩
    rcases UInt32.lt_or_le start stop with hlt | hempty
    · cases hstart : p.params.refusedSearch? start stop refusals with
      | some failure => cases (searchUnder?_of_refused hvalid hlt hstart).symm.trans h
      | none =>
        obtain ⟨hover, houtcome⟩ := (searchUnder?_eq_some_iff hvalid hlt hstart).1 h
        refine .inr ⟨hlt, ?_, hover, houtcome⟩
        -- without room the race would fail
        by_contra hfull
        rw [Bool.not_eq_true] at hfull
        cases (Race.outcome_eq_roomFailure hfull hlt hover).symm.trans houtcome
    · rw [searchUnder?_of_empty hvalid hempty] at h
      cases h
      exact .inl ⟨hempty, rfl⟩

/-- A search that succeeds has been refused nothing that it needs. -/
theorem searchUnder?_of_refusals {found : Option Proof}
    (h : p.searchUnder? target start stop schedule refusals = some (.ok found)) :
    p.searchUnder? target start stop schedule = some (.ok found) := by
  obtain ⟨hvalid, ⟨hempty, rfl⟩ | ⟨hlt, -, hover, houtcome⟩⟩ := searchUnder?_inv h
  · exact searchUnder?_of_empty hvalid hempty
  · exact (searchUnder?_eq_some_iff hvalid hlt (Params.refusedSearch?_of_granted _ _ _)).2
      ⟨hover, houtcome⟩

/-- A search comes to something where every worker gets enough turns. -/
theorem isSome_searchUnder?_of_turns (target : Target) (hp : p.params.validateForProof = .ok ())
    (refusals : Refusals)
    (hturns : ∀ number < (nonceChunks p.params.jobs.toNat start.toNat stop.toNat).length,
      2 * (stop.toNat - start.toNat) + 2 ≤ schedule.count (.worker number)) :
    (p.searchUnder? target start stop schedule refusals).isSome := by
  rcases UInt32.lt_or_le start stop with hlt | hempty
  · cases hstart : p.params.refusedSearch? start stop refusals with
    | some failure =>
      rw [searchUnder?_of_refused hp hlt hstart]
      rfl
    | none => exact (isSome_searchUnder? hp hlt hstart).2 (Race.isOver_race hturns)
  · rw [searchUnder?_of_empty hp hempty]
    rfl

/-- A search says that it was called off only if it was. -/
theorem cancel_mem_of_searchUnder? (hp : p.params.validateForProof = .ok ()) (hlt : start < stop)
    (h : p.searchUnder? target start stop schedule refusals = some (.error .cancelled)) :
    .cancel ∈ schedule := by
  cases hstart : p.params.refusedSearch? start stop refusals with
  | some failure =>
    cases (searchUnder?_of_refused hp hlt hstart).symm.trans h
    exact absurd rfl (Params.ne_cancelled_of_refusedSearch? hstart)
  | none =>
    obtain ⟨-, houtcome⟩ := (searchUnder?_eq_some_iff hp hlt hstart).1 h
    rcases Race.outcome_eq_error_iff.1 houtcome with ⟨-, hfull⟩ | ⟨-, -, -, hraised⟩
    · -- a search without room fails in other words
      unfold roomFailure at hfull
      split_ifs at hfull
    · exact Race.cancelled_race.1 hraised

/-- A search that is not called off comes to what a lone worker comes to, if there is but one worker
or one winner. -/
theorem searchUnder?_eq_search (hc : p.IsCommitted) (hp : p.params.validateForProof = .ok ())
    (hroom : p.params.walkFits = true) (hlt : start < stop)
    (hstart : p.params.refusedSearch? start stop refusals = none) (hcancel : .cancel ∉ schedule)
    (hone : searchWorkers p.params.jobs.toNat (stop.toNat - start.toNat) = 1 ∨
      p.HasOneWinner target start.toNat stop.toNat)
    (hsome : (p.searchUnder? target start stop schedule refusals).isSome) :
    p.searchUnder? target start stop schedule refusals =
      some (p.search target start stop false) := by
  have hover := (isSome_searchUnder? hp hlt hstart).1 hsome
  rw [searchUnder?_eq_some_iff hp hlt hstart, search_eq hp hlt hroom]
  exact ⟨hover, Race.outcome_eq_searchFrom hc hroom hlt hover hcancel hone⟩

theorem search_with_jobs (target : Target) (hp : p.params.validateForProof = .ok ())
    (hlt : start < stop) (hroom : p.params.walkFits = true) (jobs : UInt64) :
    ({ p with params := { p.params with jobs := jobs } } : Prover).search target start stop false =
      p.search target start stop false := by
  rw [search_eq (p := { p with params := { p.params with jobs := jobs } }) hp hlt hroom,
    searchFrom_with_jobs, search_eq hp hlt hroom]

end Prover

namespace Race

open Prover

/-- Whatever the parameters of a proof, the memory and the tree over it, the target and the number
of workers, whatever the machine refuses, and however the turns fall: the chunks of the workers are
the nonces of the search; a search in which every worker gets enough turns ends; if it ends with a
proof, this is the one of the first nonce that wins in some chunk; if it ends with nothing, every
nonce has been tried and has lost; it ends as cancelled only if it is called off.  It fails if a
worker cannot be started, and without room for a walk.  If all are started and there is room, it
fails only if it is called off; a search that is not called off ends with a proof just if some nonce
wins, and if only one does, it ends as a search with any other number of workers does, and as one in
ascending order. -/
theorem no_nonce_lost {p : Prover} (hp : p.params.validateForProof = .ok ())
    (hm : p.IsOverMemory) (target : Target) {start stop : UInt32} (hlt : start < stop) :
    let total := stop.toNat - start.toNat
    let workers := searchWorkers p.params.jobs.toNat total
    let chunks := nonceChunks p.params.jobs.toNat start.toNat stop.toNat
    chunks.flatMap noncesOf = List.range' start.toNat total ∧
    (workers = 1 → chunks = [(start.toNat, stop.toNat)]) ∧
    ∀ (schedule : List Turn) (refusals : Refusals),
      let search := p.searchUnder? target start stop schedule refusals
      ((∀ number < chunks.length, 2 * total + 2 ≤ schedule.count (.worker number)) →
        search.isSome) ∧
      (∀ proof, search = some (.ok (some proof)) →
        ∃ chunk ∈ chunks, p.IsFirstProof target chunk proof) ∧
      (search = some (.ok none) →
        (p.race target start stop schedule).HasLost p target start.toNat stop.toNat) ∧
      (search = some (.error .cancelled) → .cancel ∈ schedule) ∧
      (∀ failure, p.params.refusedSearch? start stop refusals = some failure →
        search = some (.error failure)) ∧
      (p.params.refusedSearch? start stop refusals = none →
        (p.params.walkFits = false →
          ∀ outcome, search = some outcome → outcome = .error (roomFailure workers)) ∧
        (p.params.walkFits = true →
          (∀ failure, search = some (.error failure) → failure = .cancelled) ∧
          (search.isSome → .cancel ∉ schedule →
            ((∃ proof, search = some (.ok (some proof))) ↔
              p.HasWinner target start.toNat stop.toNat) ∧
            (p.HasOneWinner target start.toNat stop.toNat →
              ∀ jobs : UInt64, let other := { p with params := { p.params with jobs := jobs } }
                (∀ schedule', .cancel ∉ schedule' →
                  (other.searchUnder? target start stop schedule').isSome →
                  other.searchUnder? target start stop schedule' = search) ∧
                some (other.search target start stop false) = search)))) := by
  intro total workers chunks
  have hc := hm.isCommitted
  refine ⟨flatMap_nonceChunks _ _ _, nonceChunks_of_one (UInt32.lt_iff_toNat_lt.1 hlt), ?_⟩
  intro schedule refusals search
  refine ⟨isSome_searchUnder?_of_turns target hp refusals, ?_, ?_,
    cancel_mem_of_searchUnder? hp hlt, fun failure => searchUnder?_of_refused hp hlt,
    fun hstart => ⟨?_, fun hroom => ⟨?_, ?_⟩⟩⟩
  · -- it ends with a proof
    intro proof hfound
    obtain ⟨-, ⟨-, hnone⟩ | ⟨-, -, -, houtcome⟩⟩ := searchUnder?_inv hfound
    · cases hnone
    · exact isFirstProof_of_outcome hc houtcome
  · -- it ends with nothing
    intro hnone
    obtain ⟨-, ⟨hempty, -⟩ | ⟨-, -, hover, houtcome⟩⟩ := searchUnder?_inv hnone
    · exact absurd hlt (UInt32.not_lt.2 hempty)
    · exact hasLost_of_outcome hc hover houtcome
  · -- there is no room for a walk
    intro hfull outcome houtcome
    obtain ⟨hover, houtcome⟩ := (searchUnder?_eq_some_iff hp hlt hstart).1 houtcome
    exact houtcome.symm.trans (outcome_eq_roomFailure hfull hlt hover)
  · -- there is room, and it fails
    intro failure hfailure
    obtain ⟨-, houtcome⟩ := (searchUnder?_eq_some_iff hp hlt hstart).1 hfailure
    exact (outcome_eq_error hc hroom houtcome).1
  · -- there is room, and nobody calls it off
    intro hsome hcancel
    have hover := (isSome_searchUnder? hp hlt hstart).1 hsome
    have hsearch (proof : Proof) : search = some (.ok (some proof)) ↔ _ :=
      searchUnder?_eq_some_iff hp hlt hstart
    refine ⟨?_, ?_⟩
    · simp only [← exists_outcome_iff hc hroom hover hcancel, hsearch, hover, true_and]
    intro hunique jobs other
    -- all of them come to what a lone worker comes to, for whom jobs do not matter
    have hjobs := search_with_jobs target hp hlt hroom jobs
    have hvalue : search = some (p.search target start stop false) :=
      searchUnder?_eq_search hc hp hroom hlt hstart hcancel (.inr hunique) hsome
    have hother : other.IsCommitted := ⟨hc.isRegular, hc.isOver⟩
    rw [hvalue, ← hjobs]
    refine ⟨fun schedule' hcancel' hsome' => ?_, rfl⟩
    exact searchUnder?_eq_search hother hp hroom hlt (Params.refusedSearch?_of_granted _ _ _)
      hcancel' (.inr hunique) hsome'

end Race

end

/-- Two workers and three nonces that all win. -/
theorem Race.no_nonce_lost_sixteen :
    let schedule := List.replicate 8 (Turn.worker 0) ++ List.replicate 8 (Turn.worker 1)
    ∃ p : Prover, p.params = { Params.sixteen 1 with jobs := 2 } ∧
      p.params.validateForProof = .ok () ∧ p.IsOverMemory ∧
      ∃ chunk ∈ [(0, 2), (2, 3)], ∃ proof,
        p.searchUnder? .easiest 0 3 schedule = some (.ok (some proof)) ∧
        p.IsFirstProof .easiest chunk proof := by
  intro schedule
  obtain ⟨p, hparams, -, ht, hready, -⟩ := Prover.exists_sixteen 2
  have hp := Params.validateForProof_eq_ok_iff.2 hready.proofFault_eq
  have hm := Prover.isOverMemory_of_build hready ht
  have hroom : p.params.walkFits = true := by
    rw [hparams]
    decide
  obtain ⟨-, -, hsearch⟩ := no_nonce_lost hp hm .easiest (show (0 : UInt32) < 3 by decide)
  obtain ⟨hends, hfound, -, -, -, hknown⟩ := hsearch schedule {}
  obtain ⟨-, hknown⟩ := hknown (Params.refusedSearch?_of_granted _ _ _)
  have hchunks : nonceChunks p.params.jobs.toNat (0 : UInt32).toNat (3 : UInt32).toNat =
      [(0, 2), (2, 3)] := by
    rw [hparams]
    decide
  rw [hchunks] at hends hfound
  have hsome := hends (show ∀ number < 2, 2 * 3 + 2 ≤ schedule.count (.worker number) by decide)
  obtain ⟨visited, digest, hwalk⟩ := hready.exists_walk 0
  obtain ⟨proof, hproof⟩ := (((hknown hroom).2 hsome (by decide)).1).2
    ⟨0, Nat.le_refl _, by decide, visited, digest, hwalk, Target.isMetBy_easiest digest⟩
  obtain ⟨chunk, hchunk, hfirst⟩ := hfound proof hproof
  exact ⟨p, hparams, hp, hm, chunk, hchunk, proof, hproof, hfirst⟩

/-- Walks of 2 ^ 60 blocks, for which there is no room: each of two nonces wins, and nobody calls
the search off, but it fails. -/
theorem Race.no_nonce_lost_full :
    ∃ p : Prover,
      p.params = { Params.sixteen 1 with jobs := 2, searchLength := 0x1000000000000000 } ∧
      p.params.validateForProof = .ok () ∧ p.IsOverMemory ∧
      (∀ nonce, p.Wins .easiest nonce) ∧
      ∃ schedule, .cancel ∉ schedule ∧
        p.searchUnder? .easiest 0 2 schedule = some (.error (.thread .searchStopped)) := by
  obtain ⟨p, hparams, -, ht, hready, -⟩ := Prover.exists_sixteen 2
  obtain ⟨params, challenge, memory, tree⟩ := p
  cases hparams
  let long : Params := { Params.sixteen 1 with jobs := 2, searchLength := 0x1000000000000000 }
  have hlong : long.proofFault? = none := by decide
  have hfull : long.walkFits = false := by decide
  let q : Prover := ⟨long, challenge, memory, tree⟩
  have hq : q.IsReady := ⟨hlong, hready.geometry_eq, hready.isOver⟩
  have hp := Params.validateForProof_eq_ok_iff.2 hlong
  have hm := Prover.isOverMemory_of_build hready ht
  obtain ⟨schedule, hcancel, hturns⟩ := Race.exists_turns
    (nonceChunks long.jobs.toNat (0 : UInt32).toNat (2 : UInt32).toNat).length 6
  have hlt : (0 : UInt32) < 2 := by decide
  have hover : (q.race .easiest 0 2 schedule).isOver = true := isOver_race hturns
  refine ⟨q, rfl, hp, ⟨hm.geometry_eq, hm.tree_eq⟩, fun nonce => ?_, schedule, hcancel, ?_⟩
  · obtain ⟨visited, digest, hwalk⟩ := hq.exists_walk nonce
    exact ⟨visited, digest, hwalk, Target.isMetBy_easiest digest⟩
  · exact (Prover.searchUnder?_eq_some_iff hp hlt (Params.refusedSearch?_of_granted _ _ _)).2
      ⟨hover, outcome_eq_roomFailure hfull hlt hover⟩

end MemoryHard
