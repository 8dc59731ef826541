import MemoryHard.Digest.Standard
import MemoryHard.Proofs.Session.Workspace

/-!
# MemoryHard.Proofs.Session.Lifecycle — what holds whenever a call has returned

The phase of a session says whether there is a job and whether there is a workspace, and a
workspace that is there is the one of the job at hand.  Every call keeps this, so it holds after
every history, whatever the executor and the workers of a search did.

* `Session.IsSound` — what holds between the calls;
* `Session.FallsBack` — what a failure leaves behind;
* `IsSound.search_cases`, `Session.searchUnder?_inv` — all that a search can do;
* `IsSound.load`, `IsSound.prepare`, `IsSound.searchUnder?` — each call keeps it;
* `IsSound.act?`, `IsSound.follow?` — so does every history;
* `Session.lifecycle` — the whole of it, from the start of a session.
-/

namespace MemoryHard

section
variable [HashSuite] {s s' s₀ : Session} {p : Params} {e : Executor} {machine : Machine}
  {w : Workspace} {job : Job} {start stop : UInt32} {schedule : List Turn}
  {result : Except Failure SearchResult}

/-! ## Between the calls -/

namespace Session

/-- What holds of a session between the calls. -/
structure IsSound (s : Session) (p : Params) (e : Executor) (machine : Machine) : Prop where
  params_eq : s.params = p
  executor_eq : s.executor = e
  machine_eq : s.machine = machine
  not_searching : s.phase ≠ .searching
  idle_iff : s.phase = .idle ↔ s.job = none
  workspace_iff : s.workspace.isSome ↔
    s.phase = .prepared ∨ s.phase = .found ∨ s.phase = .exhausted
  isFor : ∀ w, s.workspace = some w → ∃ job, s.job = some job ∧ w.IsFor p job.header

/-- What a failure leaves behind: the job and the parameters, but no workspace. -/
structure FallsBack (s s' : Session) : Prop where
  job_eq : s'.job = s.job
  params_eq : s'.params = s.params
  workspace_eq : s'.workspace = none
  phase_eq : s'.phase = if s.job.isSome then .loaded else .idle

namespace IsSound

theorem refusals_eq (h : s.IsSound p e machine) (hm : machine.IsGenerous) : s.refusals = {} := by
  rw [refusals, h.machine_eq, hm]

/-- A session with a workspace may take any phase for which there is one, its flag may be raised or
lowered, and requests may be counted. -/
theorem withPhase (h : s.IsSound p e machine) (hw : s.workspace = some w) (cancelled : Bool)
    (requests : Nat) {phase : Phase}
    (hphase : phase = .prepared ∨ phase = .found ∨ phase = .exhausted) :
    ({ s with phase := phase, cancelled := cancelled, requests := requests } : Session).IsSound p e
      machine := by
  obtain ⟨job, hjob, -⟩ := h.isFor w hw
  refine ⟨h.params_eq, h.executor_eq, h.machine_eq, ?_, ?_, ?_, h.isFor⟩
  · rcases hphase with rfl | rfl | rfl <;> simp
  · rcases hphase with rfl | rfl | rfl <;> simp [hjob]
  · simp [hw, hphase]

theorem tearDown (hp : s.params = p) (he : s.executor = e) (hm : s.machine = machine) :
    s.tearDown.IsSound p e machine := by
  unfold Session.tearDown
  refine ⟨hp, he, hm, ?_, ?_, ?_, fun w hw => nomatch hw⟩ <;> cases s.job <;> simp

theorem load (h : s.IsSound p e machine) (job : Job) : (s.load job).IsSound p e machine := by
  unfold Session.load
  dsimp only
  split_ifs with hkeep hsome hsome
  · refine ⟨h.params_eq, h.executor_eq, h.machine_eq, by simp, by simp, by simp [hsome], ?_⟩
    -- the workspace is kept, and it is for the header of the old job, which is the one of the new
    intro w hw
    obtain ⟨job', hjob', hfor⟩ := h.isFor w hw
    have hsame : sameWork job' job = true := by simpa [hjob'] using hkeep
    have hheader : job'.header = job.header := by simpa using (Bool.and_eq_true_iff.1 hsame).2
    exact ⟨job, rfl, hheader ▸ hfor⟩
  · refine ⟨h.params_eq, h.executor_eq, h.machine_eq, by simp, by simp, by simpa using hsome, ?_⟩
    intro w hw
    exact absurd (by rw [hw]; rfl) hsome
  · cases hsome
  · exact ⟨h.params_eq, h.executor_eq, h.machine_eq, by simp, by simp, by simp,
      fun w hw => nomatch hw⟩

end IsSound

omit [HashSuite] in
theorem fallsBack_tearDown (hj : s'.job = s.job) (hp : s'.params = s.params) :
    s.FallsBack s'.tearDown := by
  refine ⟨hj, hp, rfl, ?_⟩
  rw [← hj]
  rfl

/-- Preparing keeps what holds of a session.  It ends with a workspace for the job, or it falls
back. -/
theorem IsSound.prepare (h : s.IsSound p e machine) (he : e.IsHonest) {result : Except Failure Unit}
    (hr : s.prepare = (s', result)) :
    s'.IsSound p e machine ∧ s'.job = s.job ∧
      (result = .ok () → ∃ job w, s.job = some job ∧ s'.workspace = some w ∧ w.IsFor p job.header) ∧
      (∀ failure, result = .error failure → s.FallsBack s') := by
  have he' : s.executor.IsHonest := h.executor_eq.symm ▸ he
  rcases prepare_inv he' with ⟨hw, hok⟩ | ⟨hw, hj, herror⟩ |
    ⟨job, calls, cancelled, hw, hj, ⟨failure, herror⟩ | ⟨w, hfor, hok⟩⟩
  · -- the workspace is there
    cases hok.symm.trans hr
    obtain ⟨w, hw⟩ := Option.isSome_iff_exists.1 hw
    obtain ⟨job, hjob, hfor⟩ := h.isFor w hw
    exact ⟨h, rfl, fun _ => ⟨job, w, hjob, hw, hfor⟩, fun failure hfailure => nomatch hfailure⟩
  · -- there is no job
    cases herror.symm.trans hr
    refine ⟨h, rfl, (fun hok => nomatch hok), fun failure hfailure => ⟨rfl, rfl, hw, ?_⟩⟩
    rw [h.idle_iff.2 hj, hj]
    rfl
  · -- building fails
    cases herror.symm.trans hr
    exact ⟨IsSound.tearDown h.params_eq h.executor_eq h.machine_eq, rfl, (fun hok => nomatch hok),
      fun failure hfailure => fallsBack_tearDown rfl rfl⟩
  · -- a workspace is built
    cases hok.symm.trans hr
    rw [h.params_eq] at hfor
    refine ⟨⟨h.params_eq, h.executor_eq, h.machine_eq, by simp, by simp [hj], by simp, ?_⟩, rfl,
      fun _ => ⟨job, w, hj, rfl, hfor⟩, fun failure hfailure => nomatch hfailure⟩
    rintro _ ⟨⟩
    exact ⟨job, hj, hfor⟩

/-! ## A search -/

omit [HashSuite] in
/-- All that the outcome of a search can leave behind, unless it stops. -/
theorem conclude_inv {outcome : Except Failure (Option Proof)} (hs : outcome ≠ .error .stopped) :
    (∃ proof, outcome = .ok (some proof) ∧
      s.conclude outcome = ({ s with phase := .found }, .ok (.found proof))) ∨
    (outcome = .ok none ∧ s.conclude outcome = ({ s with phase := .exhausted }, .ok .exhausted)) ∨
    ∃ failure, outcome = .error failure ∧ s.conclude outcome = (s.tearDown, .error failure) := by
  cases outcome with
  | ok found =>
    cases found with
    | none => exact .inr (.inl ⟨rfl, rfl⟩)
    | some proof => exact .inl ⟨proof, rfl, rfl⟩
  | error failure =>
    refine .inr (.inr ⟨failure, rfl, ?_⟩)
    cases failure with
    | stopped => exact absurd rfl hs
    | _ => rfl

omit [HashSuite] in
theorem returned_eq_some_iff {α : Type} {call call' : Session × Except Failure α} :
    returned call = some call' ↔ call.2 ≠ .error .stopped ∧ call = call' := by
  obtain ⟨s, result⟩ := call
  unfold returned
  cases result with
  | ok _ => simp
  | error failure => cases failure <;> simp

/-- What a search does, by one worker or by several: preparing fails, or a workspace for the job is
searched. -/
theorem IsSound.search_cases (h : s.IsSound p e machine) (he : e.IsHonest) (start stop : UInt32) :
    (∃ s₁ failure, s.prepare = (s₁, .error failure) ∧
      s.search start stop = (s₁, .error failure) ∧
      ∀ schedule, s.searchUnder? start stop schedule = returned (s₁, .error failure)) ∨
    ∃ s₁ job w,
      let busy (cancelled : Bool) : Session :=
        { s₁ with phase := .searching, cancelled := cancelled, requests := s₁.requests + 1 }
      s.prepare = (s₁, .ok ()) ∧ s₁.IsSound p e machine ∧ s.job = some job ∧
        s₁.workspace = some w ∧ w.IsFor p job.header ∧
        s.search start stop = (busy s₁.cancelled).conclude
          ((w.prover p).search job.target start stop s₁.cancelled s₁.refusals) ∧
        ∀ schedule, s.searchUnder? start stop schedule =
          ((w.prover p).searchUnder? job.target start stop (turnsFrom s₁.cancelled schedule)
            s₁.refusals).bind fun outcome => returned
              ((busy ((turnsFrom s₁.cancelled schedule).contains .cancel)).conclude outcome) := by
  unfold search searchUnder?
  generalize hprepare : s.prepare = call
  obtain ⟨s₁, prepared⟩ := call
  obtain ⟨hsound, hjob₁, hok, -⟩ := h.prepare he hprepare
  cases prepared with
  | error failure => exact .inl ⟨s₁, failure, rfl, rfl, fun _ => rfl⟩
  | ok _ =>
    obtain ⟨job, w, hjob, hw, hfor⟩ := hok rfl
    refine .inr ⟨s₁, job, w, rfl, hsound, hjob, hw, hfor, ?_, fun schedule => ?_⟩
    · simp only [hjob₁.trans hjob, hw, hsound.params_eq]
    · simp only [hjob₁.trans hjob, hw, hsound.params_eq]

/-- All that a search by several workers has done that returned. -/
theorem searchUnder?_inv (h : s.IsSound p e machine) (he : e.IsHonest)
    (hr : s.searchUnder? start stop schedule = some (s', result)) :
    (∃ failure, s.prepare = (s', .error failure) ∧ result = .error failure) ∨
    ∃ s₁ job w outcome,
      let turns := turnsFrom s₁.cancelled schedule
      s.prepare = (s₁, .ok ()) ∧ s₁.IsSound p e machine ∧ s.job = some job ∧
        s₁.workspace = some w ∧ w.IsFor p job.header ∧
        (w.prover p).searchUnder? job.target start stop turns s₁.refusals = some outcome ∧
        outcome ≠ .error .stopped ∧
        ({ s₁ with
          phase := .searching, cancelled := turns.contains .cancel,
          requests := s₁.requests + 1 } : Session).conclude outcome = (s', result) := by
  rcases h.search_cases he start stop with ⟨s₁, failure, hprepare, -, hunder⟩ |
    ⟨s₁, job, w, hprepare, hsound, hjob, hw, hfor, -, hunder⟩
  · rw [hunder] at hr
    obtain ⟨-, hr⟩ := returned_eq_some_iff.1 hr
    cases hr
    exact .inl ⟨failure, hprepare, rfl⟩
  · rw [hunder] at hr
    obtain ⟨outcome, houtcome, hr⟩ := Option.bind_eq_some_iff.1 hr
    obtain ⟨hstopped, hconclude⟩ := returned_eq_some_iff.1 hr
    refine .inr ⟨s₁, job, w, outcome, hprepare, hsound, hjob, hw, hfor, houtcome, ?_, hconclude⟩
    rintro rfl
    exact hstopped rfl

/-- A search keeps what holds of a session, and if it fails, it falls back. -/
theorem IsSound.searchUnder? (h : s.IsSound p e machine) (he : e.IsHonest)
    (hr : s.searchUnder? start stop schedule = some (s', result)) :
    s'.IsSound p e machine ∧ s'.job = s.job ∧
      ∀ failure, result = .error failure → s.FallsBack s' := by
  rcases searchUnder?_inv h he hr with ⟨failure, hprepare, rfl⟩ |
    ⟨s₁, job, w, outcome, hprepare, hsound, -, hw, -, -, hstopped, hconclude⟩
  · -- preparing fails
    obtain ⟨hsound, hjob, -, hback⟩ := h.prepare he hprepare
    exact ⟨hsound, hjob, fun failure' _ => hback failure rfl⟩
  · -- a workspace is searched
    obtain ⟨-, hjob₁, -⟩ := h.prepare he hprepare
    rcases conclude_inv hstopped with ⟨proof, -, hc⟩ | ⟨-, hc⟩ | ⟨failure, -, hc⟩
    · cases hc.symm.trans hconclude
      exact ⟨hsound.withPhase hw _ _ (.inr (.inl rfl)), hjob₁, fun failure h => nomatch h⟩
    · cases hc.symm.trans hconclude
      exact ⟨hsound.withPhase hw _ _ (.inr (.inr rfl)), hjob₁, fun failure h => nomatch h⟩
    · cases hc.symm.trans hconclude
      exact ⟨IsSound.tearDown hsound.params_eq hsound.executor_eq hsound.machine_eq, hjob₁,
        fun failure' _ => fallsBack_tearDown hjob₁ (hsound.params_eq.trans h.params_eq.symm)⟩

/-! ## A history -/

theorem isSound_start (hs : Session.start p e machine = .ok s) : s.IsSound p e machine := by
  unfold Session.start at hs
  split at hs
  · cases hs
  · cases hs
    exact ⟨rfl, rfl, rfl, by simp, by simp, by simp, fun w hw => nomatch hw⟩

omit [HashSuite] in
theorem validateForProof_of_start (hs : Session.start p e machine = .ok s) :
    p.validateForProof = .ok () := by
  unfold Session.start at hs
  split at hs
  · cases hs
  · assumption

/-- Every call keeps what holds of a session, and none but a load changes the job. -/
theorem IsSound.act? (h : s.IsSound p e machine) (he : e.IsHonest) {action : Action}
    (ha : s.act? action schedule = some s') :
    s'.IsSound p e machine ∧ s'.job = match action with
      | .load job => some job
      | _ => s.job := by
  cases action with
  | load job =>
    cases ha
    exact ⟨h.load job, rfl⟩
  | prepare =>
    obtain ⟨⟨s₁, result⟩, hcall, rfl⟩ := Option.map_eq_some_iff.1 ha
    obtain ⟨hsound, hjob, -⟩ := h.prepare he (returned_eq_some_iff.1 hcall).2
    exact ⟨hsound, hjob⟩
  | search start stop =>
    obtain ⟨⟨s₁, result⟩, hcall, rfl⟩ := Option.map_eq_some_iff.1 ha
    obtain ⟨hsound, hjob, -⟩ := h.searchUnder? he hcall
    exact ⟨hsound, hjob⟩
  | verify proof =>
    cases ha
    exact ⟨h, rfl⟩
  | cancel =>
    cases ha
    exact ⟨⟨h.params_eq, h.executor_eq, h.machine_eq, h.not_searching, h.idle_iff, h.workspace_iff,
      h.isFor⟩, rfl⟩
  | resume =>
    cases ha
    exact ⟨⟨h.params_eq, h.executor_eq, h.machine_eq, h.not_searching, h.idle_iff, h.workspace_iff,
      h.isFor⟩, rfl⟩

theorem IsSound.follow? (h : s.IsSound p e machine) (he : e.IsHonest)
    {history : List (Action × List Turn)} (hs : s.follow? history = some s') :
    s'.IsSound p e machine := by
  induction history generalizing s with
  | nil =>
    cases hs
    exact h
  | cons call history ih =>
    obtain ⟨s₁, hcall, hrest⟩ := Option.bind_eq_some_iff.1 hs
    exact ih (h.act? he hcall).1 hrest

theorem IsSound.job_follow? (h : s.IsSound p e machine) (he : e.IsHonest)
    {history : List (Action × List Turn)}
    (hload : ∀ job schedule, (Action.load job, schedule) ∉ history)
    (hs : s.follow? history = some s') : s'.job = s.job := by
  induction history generalizing s with
  | nil =>
    cases hs
    rfl
  | cons call history ih =>
    obtain ⟨s₁, hcall, hrest⟩ := Option.bind_eq_some_iff.1 hs
    obtain ⟨hsound, hjob⟩ := h.act? he hcall
    rw [ih hsound (fun job schedule hmem => hload job schedule (List.mem_cons_of_mem _ hmem)) hrest,
      hjob]
    obtain ⟨action, schedule⟩ := call
    cases action with
    | load job => exact absurd List.mem_cons_self (hload job schedule)
    | _ => rfl

/-- A session whose executor hands back true results if any, on a machine that may refuse room or
workers at any call: after every history in which all calls return, the session is not searching,
it is idle just if there is no job, there is a workspace just in the phases that say so, and it is
the workspace that is built from scratch for the job.  And when preparing or a search fails,
whatever its schedule, the job and the parameters stay, and there is no workspace. -/
theorem lifecycle (he : e.IsHonest) (hstart : Session.start p e machine = .ok s₀)
    {history : List (Action × List Turn)} (hs : s₀.follow? history = some s) :
    s.phase ≠ .searching ∧ (s.phase = .idle ↔ s.job = none) ∧
      (s.workspace.isSome ↔ s.phase = .prepared ∨ s.phase = .found ∨ s.phase = .exhausted) ∧
      (∀ w, s.workspace = some w → ∃ job, s.job = some job ∧ w.IsFor p job.header) ∧
      s.params = p ∧
      (∀ s' failure, s.prepare = (s', .error failure) → s.FallsBack s') ∧
      ∀ start stop schedule s' failure,
        s.searchUnder? start stop schedule = some (s', .error failure) → s.FallsBack s' := by
  have h := (isSound_start hstart).follow? he hs
  refine ⟨h.not_searching, h.idle_iff, h.workspace_iff, h.isFor, h.params_eq, ?_, ?_⟩
  · intro s' failure hprepare
    obtain ⟨-, -, -, hback⟩ := h.prepare he hprepare
    exact hback failure rfl
  · intro start stop schedule s' failure hsearch
    obtain ⟨-, -, hback⟩ := h.searchUnder? he hsearch
    exact hback failure rfl

end Session

end

/-- The first call is refused room for the blocks.  The second one fills the memory, and the work is
called off afterwards. -/
theorem Session.lifecycle_sixteen :
    let machine : Machine := { refusals := fun requests => { blocks := requests == 0 } }
    let job : Job := ⟨"job", [1, 2, 3], .easiest⟩
    ∃ s₀ s w, Session.start (.sixteen 1) .serial machine = .ok s₀ ∧
      (s₀.load job).prepare.2 = .error (.allocation "block store" 16384) ∧
      s₀.follow? [(.load job, []), (.prepare, []), (.prepare, []), (.cancel, [])] = some s ∧
      s.workspace = some w ∧ w.IsFor (.sixteen 1) [1, 2, 3] ∧
      (s.phase = .prepared ∨ s.phase = .found ∨ s.phase = .exhausted) := by
  intro machine job
  let s₀ : Session := { params := .sixteen 1, executor := .serial, machine := machine }
  let refused : Session := ({ s₀.load job with requests := 1 } : Session).tearDown
  have hstart : Session.start (.sixteen 1) .serial machine = .ok s₀ := by
    rw [Session.start, Params.validateForProof_eq_ok_iff.2 (by decide)]
  have hbytes : (s₀.load job).params.geometry.blockCount * Block.byteLength = 16384 := by decide
  have hrefused := prepare_of_refused (s := s₀.load job) rfl (by decide) rfl
    (rfl : (s₀.load job).job = some job)
  rw [hbytes] at hrefused
  obtain ⟨w, calls, hfor, hprepare⟩ := exists_prepare (s := refused)
    Executor.isReliable_serial rfl (by decide) rfl rfl rfl
  let filled : Session := { s₀.load job with
    calls := calls, requests := 2, workspace := some w, phase := .prepared }
  have hload : s₀.act? (.load job) [] = some (s₀.load job) := rfl
  have hfirst : (s₀.load job).act? .prepare [] = some refused := by
    rw [act?, hrefused]
    rfl
  have hsecond : refused.act? .prepare [] = some filled := by
    rw [act?, hprepare]
    rfl
  have hfollow : s₀.follow? [(.load job, []), (.prepare, []), (.prepare, []), (.cancel, [])] =
      some filled.cancel := by
    rw [follow?, hload, Option.bind_some, follow?, hfirst, Option.bind_some, follow?, hsecond]
    rfl
  obtain ⟨-, -, hworkspace, hheld, -⟩ :=
    lifecycle Executor.isReliable_serial.isHonest hstart hfollow
  obtain ⟨job', hjob', hfor'⟩ := hheld w rfl
  cases hjob'
  exact ⟨s₀, _, w, hstart, congrArg Prod.snd hrefused, hfollow, rfl, hfor', hworkspace.1 rfl⟩

end MemoryHard
