import MemoryHard.Proofs.Proof.Parallel
import MemoryHard.Proofs.Session.Lifecycle

/-!
# MemoryHard.Proofs.Session.Transparency — what went before does not show in a result

A session keeps its workspace from one search to the next, loses it to failures and builds it
again.  None of this shows: a search that succeeds gives what a search gives in the workspace that
is built from scratch for the job, and what it finds is accepted as long as the job stays.

* `Prover.isSome_iff_of_searchUnder?`, `isFirstProof_of_searchUnder?`,
  `search_eq_of_searchUnder?` — what a search that succeeds says of the nonces, of the proof, and of
  a lone worker;
* `Prover.exists_searchUnder?`, `Session.IsSound.exists_searchUnder?`, `exists_follow?` — what a
  single worker does may be done under a schedule;
* `Session.exists_search_fresh` — a search in a new session;
* `Session.search_transparent` — what went before does not show.
-/

namespace MemoryHard

/-- The proof that is found, if there is one. -/
def SearchResult.proof? : SearchResult → Option Proof
  | .found proof => some proof
  | .exhausted => none

section
variable [HashSuite] {p : Prover} {target : Target} {start stop : UInt32} {schedule : List Turn}

/-! ## A search that succeeds -/

namespace Prover

variable {found : Option Proof} {refusals : Refusals}

theorem not_hasWinner_of_le (h : stop ≤ start) : ¬p.HasWinner target start.toNat stop.toNat := by
  rintro ⟨n, hn, hn', -⟩
  have hle := UInt32.le_iff_toNat_le.1 h
  omega

/-- A search that succeeds finds a proof just if some nonce wins. -/
theorem isSome_iff_of_searchUnder? (hc : p.IsCommitted)
    (h : p.searchUnder? target start stop schedule = some (.ok found)) :
    found.isSome ↔ p.HasWinner target start.toNat stop.toNat := by
  obtain ⟨-, ⟨hempty, rfl⟩ | ⟨-, -, hover, houtcome⟩⟩ := searchUnder?_inv h
  · simp [not_hasWinner_of_le hempty]
  · exact Race.outcome_iff_hasWinner hc hover houtcome

theorem isFirstProof_of_searchUnder? (hc : p.IsCommitted) {proof : Proof}
    (h : p.searchUnder? target start stop schedule = some (.ok (some proof))) :
    start ≤ proof.nonce ∧ proof.nonce < stop ∧ p.Wins target proof.nonce ∧
      p.IsWinning target proof := by
  obtain ⟨-, ⟨-, hnone⟩ | ⟨-, -, -, houtcome⟩⟩ := searchUnder?_inv h
  · cases hnone
  · obtain ⟨chunk, hchunk, ⟨hle, hlt, hwins, -⟩, hproof⟩ := Race.isFirstProof_of_outcome hc houtcome
    obtain ⟨hlo, -, hhi⟩ := bounds_of_mem_nonceChunks hchunk
    rw [UInt32.ofNat_toNat] at hwins
    exact ⟨UInt32.le_iff_toNat_le.2 (Nat.le_trans hlo hle),
      UInt32.lt_iff_toNat_lt.2 (Nat.lt_of_lt_of_le hlt hhi), hwins, hproof⟩

/-- A search by a lone worker that succeeds comes to what it comes to without being called off. -/
theorem search_eq_of_searchUnder? (hc : p.IsCommitted) (hjobs : p.params.jobs.toNat ≤ 1)
    (h : p.searchUnder? target start stop schedule = some (.ok found)) :
    p.search target start stop false = .ok found := by
  obtain ⟨hvalid, ⟨hempty, rfl⟩ | ⟨hlt, hroom, hover, houtcome⟩⟩ := searchUnder?_inv h
  · exact search_of_empty hvalid hempty false {}
  · have hone : searchWorkers p.params.jobs.toNat (stop.toNat - start.toNat) = 1 := by
      have := UInt32.lt_iff_toNat_lt.1 hlt
      unfold searchWorkers
      omega
    rw [search_eq hvalid hlt hroom,
      Race.searchFrom_eq_of_outcome hc hlt hover houtcome (.inl hone)]

/-- With room for a walk or without, some race comes to what the search by a lone worker does. -/
theorem exists_race_eq (hc : p.IsCommitted) (target : Target) (hlt : start < stop)
    (cancelled : Bool) :
    ∃ schedule, Turn.cancel ∉ schedule ∧
      (p.race target start stop (turnsFrom cancelled schedule)).isOver = true ∧
      (p.race target start stop (turnsFrom cancelled schedule)).outcome =
        if !p.params.walkFits then
          .error (roomFailure (searchWorkers p.params.jobs.toNat (stop.toNat - start.toNat)))
        else if cancelled then .error .cancelled
        else .ok (p.searchFrom target (stop.toNat - start.toNat) start) := by
  cases hroom : p.params.walkFits with
  | true => exact exists_race_eq_search hc hroom target start stop cancelled
  | false =>
    -- every worker stops, so all schedules do that are long enough
    obtain ⟨schedule, hcancel, hturns⟩ := Race.exists_turns
      (nonceChunks p.params.jobs.toNat start.toNat stop.toNat).length
      (2 * (stop.toNat - start.toNat) + 2)
    have hover : (p.race target start stop (turnsFrom cancelled schedule)).isOver = true :=
      Race.isOver_race (by simpa only [Race.count_turnsFrom] using hturns)
    exact ⟨schedule, hcancel, hover, Race.outcome_eq_roomFailure hroom hlt hover⟩

/-- What a lone worker does may be done under a schedule. -/
theorem exists_searchUnder? (hc : p.IsCommitted) (hp : p.params.validateForProof = .ok ())
    (target : Target) (start stop : UInt32) (cancelled : Bool) (refusals : Refusals) :
    ∃ schedule, Turn.cancel ∉ schedule ∧
      p.searchUnder? target start stop (turnsFrom cancelled schedule) refusals =
        some (p.search target start stop cancelled refusals) := by
  rcases UInt32.lt_or_le start stop with hlt | hempty
  · obtain ⟨schedule, hcancel, hover, houtcome⟩ := exists_race_eq hc target hlt cancelled
    refine ⟨schedule, hcancel, ?_⟩
    unfold searchUnder? search
    dsimp only
    rw [hp, hover, houtcome]
    simp only [if_neg (UInt32.not_le.2 hlt)]
    cases p.params.refusedSearch? start stop refusals <;> rfl
  · exact ⟨[], by simp, by rw [searchUnder?_of_empty hp hempty, search_of_empty hp hempty]⟩

end Prover

/-! ## A search in a session -/

namespace Session

variable {q : Params} {e : Executor} {machine : Machine} {s s' s₀ : Session} {w : Workspace}
  {job : Job} {result : SearchResult}

omit [HashSuite] in
theorem snd_conclude_eq_ok_iff {outcome : Except Failure (Option Proof)} :
    (s.conclude outcome).2 = .ok result ↔ outcome = .ok result.proof? := by
  cases outcome with
  | ok found => cases found <;> cases result <;> simp [conclude, SearchResult.proof?]
  | error failure => cases failure <;> simp [conclude]

/-- A search in a session by a single worker is one under a schedule, if it returns. -/
theorem IsSound.exists_searchUnder? (h : s.IsSound q e machine) (he : e.IsHonest)
    (hq : q.validateForProof = .ok ()) (hs : (s.search start stop).2 ≠ .error .stopped) :
    ∃ schedule, s.searchUnder? start stop schedule = some (s.search start stop) := by
  rcases h.search_cases he start stop with ⟨s₁, failure, -, hsearch, hunder⟩ |
    ⟨s₁, job, w, -, -, -, -, hfor, hsearch, hunder⟩
  · rw [hsearch] at hs ⊢
    exact ⟨[], (hunder []).trans (returned_eq_some_iff.2 ⟨hs, rfl⟩)⟩
  · obtain ⟨schedule, hcancel, hrace⟩ := Prover.exists_searchUnder? (hfor.isCommitted hq) hq
      job.target start stop s₁.cancelled s₁.refusals
    have hflag : (turnsFrom s₁.cancelled schedule).contains .cancel = s₁.cancelled := by
      cases s₁.cancelled <;> simp [turnsFrom, hcancel]
    refine ⟨schedule, ?_⟩
    rw [hsearch] at hs ⊢
    rw [hunder, hrace, hflag]
    exact returned_eq_some_iff.2 ⟨hs, rfl⟩

/-- A call returns that is carried out by a single worker. -/
def Returns (s : Session) : Action → Prop
  | .prepare => s.prepare.2 ≠ .error .stopped
  | .search start stop => (s.search start stop).2 ≠ .error .stopped
  | _ => True

/-- All calls return that are carried out one after the other by a single worker. -/
def ReturnsAll (s : Session) : List Action → Prop
  | [] => True
  | action :: actions => s.Returns action ∧ (s.act action).ReturnsAll actions

theorem IsSound.exists_act? (h : s.IsSound q e machine) (he : e.IsHonest)
    (hq : q.validateForProof = .ok ()) {action : Action} (hr : s.Returns action) :
    ∃ schedule, s.act? action schedule = some (s.act action) := by
  cases action with
  | prepare =>
    refine ⟨[], ?_⟩
    show (returned s.prepare).map Prod.fst = _
    rw [returned_eq_some_iff.2 ⟨hr, rfl⟩]
    rfl
  | search start stop =>
    obtain ⟨schedule, hsearch⟩ := h.exists_searchUnder? he hq hr
    refine ⟨schedule, ?_⟩
    show (s.searchUnder? start stop schedule).map Prod.fst = _
    rw [hsearch]
    rfl
  | _ => exact ⟨[], rfl⟩

/-- What single workers do, call after call, may be done under schedules. -/
theorem IsSound.exists_follow? (h : s.IsSound q e machine) (he : e.IsHonest)
    (hq : q.validateForProof = .ok ()) {actions : List Action} (hr : s.ReturnsAll actions) :
    ∃ history, history.map Prod.fst = actions ∧ s.follow? history = some (s.after actions) := by
  induction actions generalizing s with
  | nil => exact ⟨[], rfl, rfl⟩
  | cons action actions ih =>
    obtain ⟨schedule, hact⟩ := h.exists_act? he hq hr.1
    obtain ⟨history, hactions, hfollow⟩ := ih (h.act? he hact).1 hr.2
    refine ⟨(action, schedule) :: history, by rw [List.map_cons, hactions], ?_⟩
    rw [Session.follow?, hact]
    exact hfollow

/-- What a search in a new session comes to. -/
theorem exists_search_fresh (hq : q.validateForProof = .ok ()) (hfor : w.IsFor q job.header)
    (hsearch : (w.prover q).search job.target start stop false = .ok result.proof?) :
    ∃ fresh, Session.start q .serial = .ok fresh ∧
      ((fresh.load job).search start stop).2 = .ok result := by
  let fresh : Session := { params := q, executor := .serial }
  have hstart : Session.start q .serial = .ok fresh := by
    rw [Session.start, hq]
  have hfault := (Params.proofFault?_eq_none_iff.1 (Params.validateForProof_eq_ok_iff.1 hq)).1
  obtain ⟨w', calls, hfor', hprepare⟩ := exists_prepare (s := fresh.load job)
    Executor.isReliable_serial rfl hfault rfl rfl rfl
  have hw : w' = w := hfor'.unique hfor
  refine ⟨fresh, hstart, ?_⟩
  unfold search
  rw [hprepare]
  exact snd_conclude_eq_ok_iff.2 (hw ▸ hsearch)

/-- A session whose executor hands back true results if any, after any history in which all calls
return: a search that succeeds, under whatever schedule, comes to what a search comes to in the
workspace that is built from scratch for the job.  It is exhausted just if no nonce of the range
wins, and otherwise it finds the proof of one that does; with at most one job this is what a new
session finds.  What it finds is accepted, and remains so until another job is loaded. -/
theorem search_transparent (he : e.IsHonest) (hstart : Session.start q e machine = .ok s₀)
    {history : List (Action × List Turn)} (hs : s₀.follow? history = some s)
    (hj : s.job = some job)
    (hsearch : s.searchUnder? start stop schedule = some (s', .ok result)) :
    ∃ w : Workspace, w.IsFor q job.header ∧
      (∃ turns, (w.prover q).searchUnder? job.target start stop turns =
        some (.ok result.proof?)) ∧
      (result = .exhausted ↔
        ¬(w.prover q).HasWinner job.target start.toNat stop.toNat) ∧
      (∀ proof, result = .found proof →
        start ≤ proof.nonce ∧ proof.nonce < stop ∧ (w.prover q).Wins job.target proof.nonce ∧
        (w.prover q).IsWinning job.target proof ∧
        ∀ later s'', (∀ job schedule, (Action.load job, schedule) ∉ later) →
          s'.follow? later = some s'' → s''.verify proof = .ok ()) ∧
      (q.jobs.toNat ≤ 1 → ∃ fresh, Session.start q .serial = .ok fresh ∧
        ((fresh.load job).search start stop).2 = .ok result) := by
  have h := (isSound_start hstart).follow? he hs
  obtain ⟨h', hjob', -⟩ := h.searchUnder? he hsearch
  rcases searchUnder?_inv h he hsearch with ⟨failure, -, hfailure⟩ |
    ⟨s₁, job₁, w, outcome, -, -, hjob₁, -, hfor, houtcome, -, hconclude⟩
  · cases hfailure
  cases hj.symm.trans hjob₁
  have hsuccess := snd_conclude_eq_ok_iff.1 (congrArg Prod.snd hconclude)
  rw [hsuccess] at houtcome
  -- what succeeds does so on a machine that refuses nothing as well
  replace houtcome := Prover.searchUnder?_of_refusals houtcome
  obtain ⟨hvalid, -⟩ := Prover.searchUnder?_inv houtcome
  have hfault := Params.validateForProof_eq_ok_iff.1 hvalid
  have hc := hfor.isCommitted hvalid
  refine ⟨w, hfor, ⟨_, houtcome⟩, ?_, ?_, ?_⟩
  · rw [← Prover.isSome_iff_of_searchUnder? hc houtcome]
    cases result <;> simp [SearchResult.proof?]
  · rintro proof rfl
    obtain ⟨hlo, hhi, hwins, hproof⟩ := Prover.isFirstProof_of_searchUnder? hc houtcome
    refine ⟨hlo, hhi, hwins, hproof, ?_⟩
    intro later s'' hload hlater
    have hjob : s''.job = some job :=
      (h'.job_follow? he hload hlater).trans (hjob'.trans hj)
    unfold verify
    rw [hjob, (h'.follow? he hlater).params_eq]
    exact hfor.verify_of_isWinning hfault hproof
  · intro hjobs
    exact exists_search_fresh hvalid hfor (Prover.search_eq_of_searchUnder? hc hjobs houtcome)

end Session

end

/-- The first search after a load, with the easiest target. -/
theorem Session.search_transparent_sixteen :
    let job : Job := ⟨"job", [1, 2, 3], .easiest⟩
    ∃ s₀ s s' schedule proof,
      Session.start (.sixteen 1) .serial = .ok s₀ ∧
      s₀.follow? [(.load job, [])] = some s ∧
      s.searchUnder? 0 1 schedule = some (s', .ok (.found proof)) ∧
      s'.verify proof = .ok () ∧
      ∃ fresh, Session.start (.sixteen 1) .serial = .ok fresh ∧
        ((fresh.load job).search 0 1).2 = .ok (.found proof) := by
  intro job
  have hfault : (Params.sixteen 1).proofFault? = none := by decide
  have hq := Params.validateForProof_eq_ok_iff.2 hfault
  have he := Executor.isReliable_serial
  let s : Session := ({ params := .sixteen 1, executor := .serial } : Session).load job
  obtain ⟨w, -, hfor, -⟩ := exists_prepare (s := s) he rfl (by decide) rfl rfl rfl
  have hroom : (w.prover (.sixteen 1)).params.walkFits = true :=
    show (Params.sixteen 1).walkFits = true by decide
  obtain ⟨proof, hproof⟩ := (hfor.isReady hfault).exists_search hroom
    (show (0 : UInt32) < 1 by decide)
  have hresult : (w.prover (.sixteen 1)).search job.target 0 1 false =
      .ok (SearchResult.found proof).proof? := hproof
  obtain ⟨s₀, hstart, hfound⟩ := exists_search_fresh hq hfor hresult
  obtain ⟨schedule, hsearch⟩ := ((isSound_start hstart).load job).exists_searchUnder?
    he.isHonest hq (by rw [hfound]; simp)
  rw [← Prod.eta ((s₀.load job).search 0 1), hfound] at hsearch
  have hfollow : s₀.follow? [(.load job, [])] = some (s₀.load job) := rfl
  obtain ⟨_, -, -, -, hknown, hfresh⟩ :=
    search_transparent he.isHonest hstart hfollow rfl hsearch
  obtain ⟨-, -, -, -, hverify⟩ := hknown proof rfl
  exact ⟨s₀, _, _, schedule, proof, hstart, hfollow, hsearch, hverify [] _ (by simp) rfl,
    hfresh (by decide)⟩

end MemoryHard
