import MemoryHard.Digest.Standard
import MemoryHard.Proofs.Proof.Parallel
import MemoryHard.Proofs.Session.Lifecycle

/-!
# MemoryHard.Proofs.Session.Failures — why a call fails

The parameters of a session are checked when it starts.  After that, as long as the executor does
its work and there is room for a walk, a call fails only because no job is loaded or because the
work is called off, and none of the checks on the way has anything left to find.

* `Fill.exists_run_of_cancelled` — a fill that is called off before it begins;
* `Race.IsCalledOff`, `Race.outcome_of_cancel` — a race that is called off before it begins;
* `Prover.searchUnder?_eq_error`, `Prover.searchUnder?_of_cancel` — searches with such a race;
* `Session.IsSound.prepare_cases` — all that preparing comes to;
* `Session.IsSound.searchUnder?_inv`, `isSome_searchUnder?` — what a search comes to, and that it
  comes to something;
* `Session.failures_known` — every failure of every call, whatever went before.
-/

namespace MemoryHard

section
variable [HashSuite]

/-! ## A fill that is called off before it begins -/

namespace Fill

variable {f : Fill} {r : FillRun}

omit [HashSuite] in
theorem exists_slicesFrom_of_cancelled (hw : f.watches = true) (hc : r.cancelled = true) (k : Nat)
    {count : Nat} (hpos : 0 < count) : ∃ r', f.slicesFrom r k count = .error (r', .cancelled) := by
  cases count with
  | zero => exact absurd hpos (Nat.lt_irrefl 0)
  | succ count =>
    rw [slicesFrom, slice]
    simp [hw, hc]

omit [HashSuite] in
theorem exists_fill_of_cancelled (hw : f.watches = true) (hc : r.cancelled = true)
    (hp : r.progress = .seeded) (hf : f.fault? r.memory = none) :
    ∃ r', f.fill r = (r', .error .cancelled) := by
  have hslices : 0 < sliceCount r.memory.geometry :=
    Nat.mul_pos (by decide) (isRegular_of_fault? hf).passes_pos
  obtain ⟨r', hstop⟩ := exists_slicesFrom_of_cancelled hw hc 0 hslices
  refine ⟨r', ?_⟩
  unfold fill
  simp [hp, hf, hstop]

/-- A fill that is called off before it begins stops at its first slice. -/
theorem exists_run_of_cancelled (hw : f.watches = true) (hc : r.cancelled = true)
    (hp : r.progress = .untouched) (hf : f.fault? r.memory = none) (inputs : HashInputs) :
    ∃ r', f.run r inputs = (r', .error .cancelled) := by
  unfold run seed
  simp only [hp, ne_eq, not_true, if_false, hf]
  refine exists_fill_of_cancelled hw hc rfl ?_
  rw [fault?_eq_none_iff] at hf ⊢
  exact ⟨hf.1, by rw [Memory.geometry_writeSeeds]; exact hf.2⟩

end Fill

/-! ## A race that is called off before it begins -/

namespace Race

variable {p : Prover} {target : Target} {r : Race} {start stop : UInt32} {schedule : List Turn}

/-- The race is called off, and no worker has begun with a walk or has one behind it. -/
structure IsCalledOff (r : Race) : Prop where
  cancelled_eq : r.cancelled = true
  slot_eq : r.slot = none
  waits : ∀ work ∈ r.workers, work = .rest ∨ ∃ next stop, work = .look next stop

theorem IsCalledOff.step (h : r.IsCalledOff) (hroom : p.params.walkFits = true) (number : Nat) :
    (r.step p target number).IsCalledOff := by
  cases hget : r.workers[number]? with
  | none =>
    unfold Race.step
    rw [hget]
    exact h
  | some work =>
    rcases h.waits work (List.mem_of_getElem? hget) with rfl | ⟨next, stop, rfl⟩
    · unfold Race.step
      rw [hget]
      exact h
    · -- a worker looks at the flag before it begins with a walk
      have hrest : r.afterLook p next stop = .rest := by
        rw [afterLook_of_room hroom, if_pos (.inr (.inr h.cancelled_eq))]
      rw [step_look hget, hrest]
      refine ⟨h.cancelled_eq, h.slot_eq, fun work hwork => ?_⟩
      rcases List.mem_or_eq_of_mem_set hwork with hmem | heq
      · exact h.waits work hmem
      · exact .inl heq

theorem IsCalledOff.run (h : r.IsCalledOff) (hroom : p.params.walkFits = true)
    (schedule : List Turn) :
    (r.run p target schedule).IsCalledOff := by
  unfold Race.run
  induction schedule generalizing r with
  | nil => exact h
  | cons turn schedule ih =>
    cases turn with
    | worker number => exact ih (h.step hroom number)
    | cancel => exact ih ⟨rfl, h.slot_eq, h.waits⟩

theorem outcome_of_cancel (hroom : p.params.walkFits = true) :
    (p.race target start stop (.cancel :: schedule)).outcome = .error .cancelled := by
  have hfirst : ((Race.start (nonceChunks p.params.jobs.toNat start.toNat stop.toNat)).turn p target
      .cancel).IsCalledOff := by
    refine ⟨rfl, rfl, fun work hwork => ?_⟩
    obtain ⟨chunk, -, rfl⟩ := List.mem_map.1 hwork
    exact .inr ⟨_, _, rfl⟩
  obtain ⟨hcancelled, hslot, hwaits⟩ := hfirst.run hroom schedule
  have hstopped : .stopped ∉ (p.race target start stop (.cancel :: schedule)).workers := by
    intro hmem
    rcases hwaits _ hmem with hrest | ⟨next, stop, hlook⟩
    · cases hrest
    · cases hlook
  exact outcome_eq_error_iff.2 (.inr ⟨hstopped, rfl, hslot, hcancelled⟩)

end Race

/-! ## A search -/

namespace Prover

variable {p : Prover} {target : Target} {start stop : UInt32} {schedule : List Turn}
  {outcome : Except Failure (Option Proof)}

/-- Where the parameters are in order and there is room, a search fails only if there are nonces to
try and it is called off. -/
theorem searchUnder?_eq_error (hc : p.IsCommitted) (hp : p.params.validateForProof = .ok ())
    (hroom : p.params.walkFits = true) {failure : Failure}
    (h : p.searchUnder? target start stop schedule = some (.error failure)) :
    start < stop ∧ failure = .cancelled ∧ .cancel ∈ schedule := by
  rcases UInt32.lt_or_le start stop with hlt | hempty
  · obtain ⟨-, houtcome⟩ :=
      (searchUnder?_eq_some_iff hp hlt (Params.refusedSearch?_of_granted _ _ _)).1 h
    exact ⟨hlt, Race.outcome_eq_error hc hroom houtcome⟩
  · rw [searchUnder?_of_empty hp hempty] at h
    cases h

theorem searchUnder?_of_cancel (hp : p.params.validateForProof = .ok ())
    (hroom : p.params.walkFits = true) (hlt : start < stop)
    (h : p.searchUnder? target start stop (.cancel :: schedule) = some outcome) :
    outcome = .error .cancelled := by
  obtain ⟨-, houtcome⟩ :=
    (searchUnder?_eq_some_iff hp hlt (Params.refusedSearch?_of_granted _ _ _)).1 h
  exact houtcome.symm.trans (Race.outcome_of_cancel hroom)

end Prover

/-! ## A session -/

omit [HashSuite] in
theorem Params.fault?_of_validateForProof {p : Params} (h : p.validateForProof = .ok ()) :
    p.fault? = none :=
  (proofFault?_eq_none_iff.1 (validateForProof_eq_ok_iff.1 h)).1

namespace Session

variable {s s' s₁ : Session} {p : Params} {e : Executor} {machine : Machine} {start stop : UInt32}
  {schedule : List Turn}

theorem build_of_cancelled (hm : s.refusals = {}) (hp : s.params.fault? = none)
    (hc : s.cancelled = true) (job : Job) : (s.build job).2 = .error .cancelled := by
  let m : Memory := .ofGeometry s.params.geometry (some (Challenge.ofHeader job.header).jobWords)
  have hzeroed := Memory.zeroed_of_fault? hp (some (Challenge.ofHeader job.header).jobWords)
  obtain ⟨r, hr⟩ := Fill.exists_run_of_cancelled
    (f := { params := s.params, executor := s.executor })
    (r := { memory := m, calls := s.calls, cancelled := true }) rfl rfl rfl
    (Fill.fault?_eq_none_iff.2 ⟨hp, rfl⟩) (.ofHeader job.header)
  unfold build
  dsimp only
  rw [hm, hzeroed, hc]
  dsimp only
  rw [hr]

omit [HashSuite] in
theorem snd_conclude_eq_error_iff {outcome : Except Failure (Option Proof)} {failure : Failure} :
    (s.conclude outcome).2 = .error failure ↔ outcome = .error failure := by
  cases outcome with
  | ok found => cases found <;> simp [conclude]
  | error failure => cases failure <;> simp [conclude]

namespace IsSound

variable (h : s.IsSound p e machine) (he : e.IsReliable) (hm : machine.IsGenerous)
  (hp : p.validateForProof = .ok ())
include h he hm hp

/-- All that preparing comes to where the executor does its work: it succeeds and leaves the flag
alone, no job is loaded, or the flag is raised. -/
theorem prepare_cases :
    (∃ s₁, s.prepare = (s₁, .ok ()) ∧ s₁.cancelled = s.cancelled ∧
      (s.workspace.isSome ∨ s.job.isSome ∧ s.cancelled = false)) ∨
    (s.workspace = none ∧ s.job = none ∧ s.prepare.2 = .error (.parameter .noJob)) ∨
    (s.workspace = none ∧ s.job.isSome ∧ s.cancelled = true ∧ s.prepare.2 = .error .cancelled) := by
  have hfault := Params.fault?_of_validateForProof hp
  cases hw : s.workspace with
  | some w => exact .inl ⟨s, by simp [Session.prepare, hw], rfl, .inl rfl⟩
  | none =>
    cases hj : s.job with
    | none => exact .inr (.inl ⟨rfl, rfl, by simp [Session.prepare, hw, hj]⟩)
    | some job =>
      cases hc : s.cancelled with
      | false =>
        obtain ⟨w, calls, -, hprepare⟩ := exists_prepare (h.executor_eq.symm ▸ he)
          (h.refusals_eq hm) (h.params_eq.symm ▸ hfault) hc hw hj
        exact .inl ⟨_, hprepare, hc, .inr ⟨rfl, rfl⟩⟩
      | true =>
        -- the fill sees the flag at its first slice
        have hbuild := build_of_cancelled (h.refusals_eq hm) (h.params_eq.symm ▸ hfault) hc job
        generalize hcall : s.build job = call at hbuild
        obtain ⟨s₁, result⟩ := call
        dsimp only at hbuild
        subst hbuild
        exact .inr (.inr ⟨rfl, rfl, rfl, by simp [Session.prepare, hw, hj, hcall]⟩)

theorem prepare_eq_error_iff {failure : Failure} :
    s.prepare.2 = .error failure ↔ s.workspace = none ∧
      (s.job = none ∧ failure = .parameter .noJob ∨
        s.job.isSome ∧ s.cancelled = true ∧ failure = .cancelled) := by
  rcases h.prepare_cases he hm hp with ⟨s₁, hprepare, -, hw | ⟨hj, hc⟩⟩ | ⟨hw, hj, hprepare⟩ |
    ⟨hw, hj, hc, hprepare⟩
  · simp [hprepare, Option.isSome_iff_ne_none.1 hw]
  · simp [hprepare, Option.isSome_iff_ne_none.1 hj, hc]
  · simp [hprepare, hw, hj, eq_comm (a := failure)]
  · simp [hprepare, hw, Option.isSome_iff_ne_none.1 hj, hj, hc, eq_comm (a := failure)]

/-- Preparing leaves the flag alone where it succeeds. -/
theorem cancelled_prepare (hprepare : s.prepare = (s₁, .ok ())) :
    s₁.cancelled = s.cancelled := by
  rcases h.prepare_cases he hm hp with ⟨s₂, hprepare', hc, -⟩ | ⟨-, -, hfailure⟩ |
    ⟨-, -, -, hfailure⟩
  · cases hprepare'.symm.trans hprepare
    exact hc
  · rw [hprepare] at hfailure
    cases hfailure
  · rw [hprepare] at hfailure
    cases hfailure

/-- A search by a single worker fails just if preparing does, or if the flag is raised and there
are nonces to try. -/
theorem search_eq_error_iff (hroom : p.walkFits = true) {failure : Failure} :
    (s.search start stop).2 = .error failure ↔ s.prepare.2 = .error failure ∨
      s.prepare.2 = .ok () ∧ s.cancelled = true ∧ start < stop ∧ failure = .cancelled := by
  rcases h.search_cases he.isHonest start stop with ⟨s₁, failure', hprepare, hsearch, -⟩ |
    ⟨s₁, job, w, hprepare, h₁, -, -, -, hsearch, -⟩
  · rw [hprepare, hsearch]
    simp
  · have hvalid : (w.prover p).params.validateForProof = .ok () := hp
    have hfits : (w.prover p).params.walkFits = true := hroom
    have hc := h.cancelled_prepare he hm hp hprepare
    rw [hprepare, hsearch, snd_conclude_eq_error_iff, hc, h₁.refusals_eq hm]
    unfold Prover.search
    rw [hvalid, hfits, Params.refusedSearch?_of_granted]
    by_cases hempty : stop ≤ start
    · simp [hempty, UInt32.not_lt.2 hempty]
    · cases s.cancelled <;> simp [hempty, UInt32.not_le.1 hempty, eq_comm (a := failure)]

/-- A search fails only if preparing does, or if it is called off and there are nonces to try. -/
theorem searchUnder?_eq_error (hroom : p.walkFits = true) {failure : Failure}
    (hr : s.searchUnder? start stop schedule = some (s', .error failure)) :
    s.prepare.2 = .error failure ∨ s.prepare.2 = .ok () ∧
      (s.cancelled = true ∨ .cancel ∈ schedule) ∧ start < stop ∧ failure = .cancelled := by
  rcases searchUnder?_inv h he.isHonest hr with ⟨failure', hprepare, hfailure⟩ |
    ⟨s₁, job, w, outcome, hprepare, h₁, -, -, hfor, hsearch, -, hconclude⟩
  · cases hfailure
    exact .inl (by rw [hprepare])
  · have houtcome := snd_conclude_eq_error_iff.1 (congrArg Prod.snd hconclude)
    rw [houtcome, h₁.refusals_eq hm] at hsearch
    obtain ⟨hlt, hcancelled, hmem⟩ :=
      Prover.searchUnder?_eq_error (hfor.isCommitted hp) hp hroom hsearch
    refine .inr ⟨by rw [hprepare], ?_, hlt, hcancelled⟩
    rw [h.cancelled_prepare he hm hp hprepare] at hmem
    cases hc : s.cancelled with
    | true => exact .inl rfl
    | false => exact .inr (by rwa [hc] at hmem)

/-- A search that nobody calls off while it runs fails just if preparing does, or if the flag is
raised before it and there are nonces to try. -/
theorem searchUnder?_eq_error_iff (hroom : p.walkFits = true) (hcancel : .cancel ∉ schedule)
    {result : Except Failure SearchResult} {failure : Failure}
    (hr : s.searchUnder? start stop schedule = some (s', result)) :
    result = .error failure ↔ s.prepare.2 = .error failure ∨
      s.prepare.2 = .ok () ∧ s.cancelled = true ∧ start < stop ∧ failure = .cancelled := by
  constructor
  · rintro rfl
    rcases h.searchUnder?_eq_error he hm hp hroom hr with hfailure | ⟨hok, hc | hmem, hrest⟩
    · exact .inl hfailure
    · exact .inr ⟨hok, hc, hrest⟩
    · exact absurd hmem hcancel
  · intro hfailure
    rcases searchUnder?_inv h he.isHonest hr with ⟨failure', hprepare, rfl⟩ |
      ⟨s₁, job, w, outcome, hprepare, h₁, -, -, -, hsearch, -, hconclude⟩
    · rw [hprepare] at hfailure
      simpa using hfailure
    · rw [hprepare] at hfailure
      obtain ⟨hc, hlt, rfl⟩ : s.cancelled = true ∧ start < stop ∧ failure = .cancelled := by
        simpa using hfailure
      rw [h.cancelled_prepare he hm hp hprepare, hc, h₁.refusals_eq hm] at hsearch
      have houtcome := Prover.searchUnder?_of_cancel (p := w.prover p) hp hroom hlt hsearch
      exact (congrArg Prod.snd hconclude).symm.trans (snd_conclude_eq_error_iff.2 houtcome)

/-- A search returns where every worker gets enough turns. -/
theorem isSome_searchUnder? (hroom : p.walkFits = true)
    (hturns : ∀ number < (nonceChunks p.jobs.toNat start.toNat stop.toNat).length,
      2 * (stop.toNat - start.toNat) + 2 ≤ schedule.count (.worker number)) :
    (s.searchUnder? start stop schedule).isSome := by
  rcases h.search_cases he.isHonest start stop with ⟨s₁, failure, hprepare, -, hunder⟩ |
    ⟨s₁, job, w, -, h₁, -, -, hfor, -, hunder⟩
  · -- a job that stops would take the call along, but with such an executor none does
    have hstopped : failure ≠ .stopped := by
      rintro rfl
      obtain ⟨-, ⟨-, hfailure⟩ | ⟨-, -, hfailure⟩⟩ :=
        (h.prepare_eq_error_iff he hm hp).1 (congrArg Prod.snd hprepare)
      · cases hfailure
      · cases hfailure
    rw [hunder, returned_eq_some_iff.2 ⟨fun hsnd => hstopped (Except.error.inj hsnd), rfl⟩]
    rfl
  · have hcount : ∀ number < (nonceChunks p.jobs.toNat start.toNat stop.toNat).length,
        2 * (stop.toNat - start.toNat) + 2 ≤
          (turnsFrom s₁.cancelled schedule).count (.worker number) := by
      simpa only [Race.count_turnsFrom] using hturns
    obtain ⟨outcome, hsearch⟩ := Option.isSome_iff_exists.1
      (Prover.isSome_searchUnder?_of_turns (p := w.prover p) job.target hp {} hcount)
    have hstopped : outcome ≠ .error .stopped := by
      rintro rfl
      obtain ⟨-, hcancelled, -⟩ :=
        Prover.searchUnder?_eq_error (hfor.isCommitted hp) hp hroom hsearch
      cases hcancelled
    rw [hunder, h₁.refusals_eq hm, hsearch, Option.bind_some, returned_eq_some_iff.2
      ⟨fun hconclude => hstopped (snd_conclude_eq_error_iff.1 hconclude), rfl⟩]
    rfl

omit hm in
/-- Where preparing succeeds, a search without nonces to try is exhausted. -/
theorem search_of_empty (hprepare : s.prepare.2 = .ok ()) (hempty : stop ≤ start) :
    (s.search start stop).2 = .ok .exhausted := by
  rcases h.search_cases he.isHonest start stop with ⟨s₁, failure, hfailure, -⟩ |
    ⟨s₁, job, w, -, -, -, -, -, hsearch, -⟩
  · rw [hfailure] at hprepare
    cases hprepare
  · rw [hsearch, Prover.search_of_empty (p := w.prover p) hp hempty]
    rfl

omit hm in
theorem searchUnder?_of_empty (hprepare : s.prepare.2 = .ok ()) (hempty : stop ≤ start)
    {result : Except Failure SearchResult}
    (hr : s.searchUnder? start stop schedule = some (s', result)) : result = .ok .exhausted := by
  rcases searchUnder?_inv h he.isHonest hr with ⟨failure, hfailure, -⟩ |
    ⟨s₁, job, w, outcome, -, -, -, -, -, hsearch, -, hconclude⟩
  · rw [hfailure] at hprepare
    cases hprepare
  · rw [Prover.searchUnder?_of_empty (p := w.prover p) hp hempty] at hsearch
    cases hsearch
    exact (congrArg Prod.snd hconclude).symm

end IsSound

/-- A session for parameters that can be proved, whose executor does its work and whose machine
refuses nothing, where there is room for a walk: whatever went before, preparing fails just if
there is no workspace and no job is loaded or the work is called off, and it tells which.  A search
fails just if preparing does, or if the work is called off and there are nonces to try; so do all
searches by several workers, whatever their turns, and they return if the workers get enough of
them. -/
theorem failures_known {s₀ : Session} (he : e.IsReliable) (hm : machine.IsGenerous)
    (hstart : Session.start p e machine = .ok s₀) (hroom : p.walkFits = true)
    {history : List (Action × List Turn)} (hs : s₀.follow? history = some s) :
    (∀ failure, s.prepare.2 = .error failure ↔ s.workspace = none ∧
      (s.job = none ∧ failure = .parameter .noJob ∨
        s.job.isSome ∧ s.cancelled = true ∧ failure = .cancelled)) ∧
    ∀ start stop : UInt32,
      (∀ failure, (s.search start stop).2 = .error failure ↔ s.prepare.2 = .error failure ∨
        s.prepare.2 = .ok () ∧ s.cancelled = true ∧ start < stop ∧ failure = .cancelled) ∧
      (s.prepare.2 = .ok () → stop ≤ start → (s.search start stop).2 = .ok .exhausted) ∧
      ∀ schedule : List Turn,
        ((∀ number < (nonceChunks p.jobs.toNat start.toNat stop.toNat).length,
          2 * (stop.toNat - start.toNat) + 2 ≤ schedule.count (.worker number)) →
          (s.searchUnder? start stop schedule).isSome) ∧
        ∀ s' result, s.searchUnder? start stop schedule = some (s', result) →
          (.cancel ∉ schedule → ∀ failure, result = .error failure ↔ s.prepare.2 = .error failure ∨
            s.prepare.2 = .ok () ∧ s.cancelled = true ∧ start < stop ∧ failure = .cancelled) ∧
          (∀ failure, result = .error failure → s.prepare.2 = .error failure ∨
            s.prepare.2 = .ok () ∧ (s.cancelled = true ∨ .cancel ∈ schedule) ∧ start < stop ∧
              failure = .cancelled) ∧
          (s.prepare.2 = .ok () → stop ≤ start → result = .ok .exhausted) := by
  have hp := validateForProof_of_start hstart
  have h := (isSound_start hstart).follow? he.isHonest hs
  refine ⟨fun failure => h.prepare_eq_error_iff he hm hp, ?_⟩
  intro start stop
  refine ⟨fun failure => h.search_eq_error_iff he hm hp hroom, h.search_of_empty he hp, ?_⟩
  intro schedule
  refine ⟨h.isSome_searchUnder? he hm hp hroom, ?_⟩
  intro s' result hr
  refine ⟨fun hcancel failure => h.searchUnder?_eq_error_iff he hm hp hroom hcancel hr, ?_,
    fun hprepare hempty => h.searchUnder?_of_empty he hp hprepare hempty hr⟩
  rintro failure rfl
  exact h.searchUnder?_eq_error he hm hp hroom hr

end Session

end

/-- A session without a job, one that is called off before its memory is filled, and one that is
called off afterwards.  Two workers fill the memory. -/
theorem Session.failures_known_sixteen :
    let job : Job := ⟨"job", [1, 2, 3], .easiest⟩
    ∃ s₀ early late : Session, Session.start (.sixteen 1) (.threaded 2) = .ok s₀ ∧
      s₀.follow? [(.load job, []), (.cancel, [])] = some early ∧
      s₀.follow? [(.load job, []), (.prepare, []), (.cancel, [])] = some late ∧
      s₀.prepare.2 = .error (.parameter .noJob) ∧
      early.prepare.2 = .error .cancelled ∧ (early.search 1 1).2 = .error .cancelled ∧
      late.prepare.2 = .ok () ∧ (late.search 0 1).2 = .error .cancelled ∧
      (late.search 1 1).2 = .ok .exhausted := by
  intro job
  let s₀ : Session := { params := .sixteen 1, executor := .threaded 2 }
  have he := Executor.isReliable_threaded 2
  have hstart : Session.start (.sixteen 1) (.threaded 2) = .ok s₀ := by
    rw [Session.start, Params.validateForProof_eq_ok_iff.2 (by decide)]
  have hm : ({} : Machine).IsGenerous := fun _ => rfl
  have hroom : (Params.sixteen 1).walkFits = true := by decide
  obtain ⟨w, calls, -, hprepare⟩ :=
    exists_prepare (s := s₀.load job) he rfl (by decide) rfl rfl rfl
  let late : Session := { s₀.load job with
    calls := calls, requests := 1, workspace := some w, phase := .prepared, cancelled := true }
  have hearly : s₀.follow? [(.load job, []), (.cancel, [])] = some (s₀.load job).cancel := rfl
  have hlate : s₀.follow? [(.load job, []), (.prepare, []), (.cancel, [])] = some late := by
    show ((s₀.load job).act? .prepare []).bind _ = _
    rw [act?, hprepare]
    rfl
  obtain ⟨hnone, -⟩ := failures_known he hm hstart hroom (rfl : s₀.follow? [] = some s₀)
  obtain ⟨hprepareEarly, hsearchEarly⟩ := failures_known he hm hstart hroom hearly
  obtain ⟨-, hsearchLate⟩ := failures_known he hm hstart hroom hlate
  have hcancelled : (s₀.load job).cancel.prepare.2 = .error .cancelled :=
    (hprepareEarly .cancelled).2 ⟨rfl, .inr ⟨rfl, rfl, rfl⟩⟩
  exact ⟨s₀, _, late, hstart, hearly, hlate, (hnone _).2 ⟨rfl, .inl ⟨rfl, rfl⟩⟩, hcancelled,
    ((hsearchEarly 1 1).1 _).2 (.inl hcancelled), rfl,
    ((hsearchLate 0 1).1 _).2 (.inr ⟨rfl, rfl, by decide, rfl⟩),
    (hsearchLate 1 1).2.1 rfl (UInt32.le_refl 1)⟩

end MemoryHard
