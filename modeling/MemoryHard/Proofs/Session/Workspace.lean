import MemoryHard.Proofs.Proof.Completeness
import MemoryHard.Session.Schedule

/-!
# MemoryHard.Proofs.Session.Workspace — what is built for a job

What an executor does may fail, but it cannot make another memory than the serial one.  So there is
only one workspace that can come out for a job, whoever fills its memory and whatever went before.

* `Workspace.IsFor` — the workspace that is built from scratch for a header;
* `IsFor.unique`, `IsFor.isReady`, `IsFor.verify_of_isWinning` — there is only one, and the proofs
  of the nonces that win in it are accepted;
* `Session.build_inv`, `Session.prepare_inv` — all that building and preparing can do;
* `Session.prepare_of_refused` — preparing fails where there is no room for the blocks;
* `Session.exists_prepare` — it succeeds where nothing goes wrong.
-/

namespace MemoryHard

open MemoryHard.Bytes

variable [HashSuite] {w w' : Workspace} {p : Params} {header : Bytes} {target : Target}
  {proof : Proof}

/-- The workspace that is built from scratch for a header: a new memory is filled by one worker,
and the tree is built over it. -/
structure Workspace.IsFor (w : Workspace) (p : Params) (header : Bytes) : Prop where
  challenge_eq : w.challenge = .ofHeader header
  memory_eq : ∃ m r, Memory.zeroed p (some w.challenge.jobWords) = .ok m ∧
    ({ params := p, executor := .serial } : Fill).run { memory := m } (.ofHeader header) =
      (r, .ok ()) ∧
    w.memory = r.memory
  tree_eq : HashTree.build p w.challenge w.memory = .ok w.tree

namespace Workspace.IsFor

variable (h : w.IsFor p header)
include h

/-- Nothing else can be built for a header. -/
theorem unique (h' : w'.IsFor p header) : w = w' := by
  obtain ⟨hchallenge, ⟨m, r, hm, hr, hmemory⟩, htree⟩ := h
  obtain ⟨hchallenge', ⟨m', r', hm', hr', hmemory'⟩, htree'⟩ := h'
  obtain ⟨challenge, memory, tree⟩ := w
  obtain ⟨challenge', memory', tree'⟩ := w'
  dsimp only at *
  subst hchallenge hchallenge'
  cases hm.symm.trans hm'
  cases hr.symm.trans hr'
  subst hmemory hmemory'
  cases htree.symm.trans htree'
  rfl

theorem isReady (hp : p.proofFault? = none) : (w.prover p).IsReady := by
  obtain ⟨hchallenge, ⟨m, r, -, hr, hmemory⟩, htree⟩ := h
  rw [hchallenge, hmemory] at htree
  unfold Workspace.prover
  rw [hchallenge, hmemory]
  exact Fill.isReady_of_run Executor.isReliable_serial.isHonest hp hr htree

theorem isCommitted (hp : p.validateForProof = .ok ()) : (w.prover p).IsCommitted :=
  (h.isReady (Params.validateForProof_eq_ok_iff.1 hp)).isCommitted

/-- Every block of the workspace is the one that belongs there. -/
theorem isDerived (hp : p.proofFault? = none) :
    w.memory.IsDerived (some (Challenge.ofHeader header).jobWords)
      (prehash p (.ofHeader header)) := by
  obtain ⟨hchallenge, ⟨m, r, hm, hr, hmemory⟩, -⟩ := h
  have hderived := Fill.isDerived_of_run Executor.isReliable_serial.isHonest
    (Params.proofFault?_eq_none_iff.1 hp).2 hr
  have hjob : m.job = some (Challenge.ofHeader header).jobWords := by
    rw [(Memory.zeroed_eq_ok hm).2, hchallenge]
    rfl
  rw [hmemory]
  exact hjob ▸ hderived

theorem verify_of_isWinning (hp : p.proofFault? = none)
    (hw : (w.prover p).IsWinning target proof) : proof.verify p header target = .ok () :=
  Prover.verify_of_isWinning (h.isReady hp) h.challenge_eq (h.isDerived hp) hw

end Workspace.IsFor

/-- Whoever fills the memory of a job, what comes out is what one worker fills. -/
theorem Fill.exists_serial_run {f : Fill} {r₀ r : FillRun} {inputs : HashInputs}
    (he : f.executor.IsHonest) (hr : f.run r₀ inputs = (r, .ok ())) :
    ∃ r', ({ params := f.params, executor := .serial } : Fill).run { memory := r₀.memory } inputs =
      (r', .ok ()) ∧ r.memory = r'.memory := by
  let serial : Fill := { params := f.params, executor := .serial }
  obtain ⟨hfault, -, hmemory⟩ := run_ok he hr
  have hleft : serial.IsLeftAlone { memory := r₀.memory } := .inr ⟨rfl, fun _ _ _ => rfl⟩
  obtain ⟨r', hr'⟩ := exists_run (f := serial) Executor.isReliable_serial.returnsInOrder hleft rfl
    hfault inputs
  obtain ⟨-, -, hmemory'⟩ := run_ok Executor.isReliable_serial.isHonest hr'
  exact ⟨r', hr', hmemory.trans hmemory'.symm⟩

namespace Session

variable {s : Session} {job : Job}

/-- All that building can do: besides the calls that are counted and the flag nothing changes, and
a workspace that comes out is the one for the job.  A machine that refuses something makes it
fail. -/
theorem build_inv (he : s.executor.IsHonest) (job : Job) :
    ∃ calls cancelled,
      let s' := { s with calls := calls, cancelled := cancelled, requests := s.requests + 1 }
      (∃ failure, s.build job = (s', .error failure)) ∨
      ∃ w, w.IsFor s.params job.header ∧ s.build job = (s', .ok w) := by
  unfold build
  dsimp only
  cases hm : Memory.zeroed s.params (some (Challenge.ofHeader job.header).jobWords) s.refusals with
  | error failure => exact ⟨s.calls, s.cancelled, .inl ⟨failure, rfl⟩⟩
  | ok m =>
    have hm' : Memory.zeroed s.params (some (Challenge.ofHeader job.header).jobWords) = .ok m := by
      obtain ⟨hfault, rfl⟩ := Memory.zeroed_eq_ok hm
      exact Memory.zeroed_of_fault? hfault _
    dsimp only
    -- of a fill, however it ends, the session keeps the number of calls and the flag
    generalize hrun : Fill.run _ _ _ = result
    obtain ⟨r, outcome⟩ := result
    refine ⟨r.calls, r.cancelled, ?_⟩
    cases outcome with
    | error failure => exact .inl ⟨failure, rfl⟩
    | ok _ =>
      dsimp only
      cases ht : HashTree.build s.params (.ofHeader job.header) r.memory s.refusals with
      | error failure => exact .inl ⟨failure, rfl⟩
      | ok tree =>
        obtain ⟨r', hr', hmemory⟩ := Fill.exists_serial_run he hrun
        exact .inr ⟨⟨.ofHeader job.header, r.memory, tree⟩,
          ⟨rfl, ⟨m, r', hm', hr', hmemory⟩, HashTree.build_of_granted ht⟩, rfl⟩

/-- All that preparing can do: the workspace is there, no job is, or one is built. -/
theorem prepare_inv (he : s.executor.IsHonest) :
    (s.workspace.isSome ∧ s.prepare = (s, .ok ())) ∨
    (s.workspace = none ∧ s.job = none ∧ s.prepare = (s, .error (.parameter .noJob))) ∨
    ∃ job calls cancelled, s.workspace = none ∧ s.job = some job ∧
      let s' := { s with calls := calls, cancelled := cancelled, requests := s.requests + 1 }
      ((∃ failure, s.prepare = (s'.tearDown, .error failure)) ∨
      ∃ w, w.IsFor s.params job.header ∧
        s.prepare = ({ s' with workspace := some w, phase := .prepared }, .ok ())) := by
  unfold prepare
  cases hw : s.workspace with
  | some w => exact .inl ⟨rfl, rfl⟩
  | none =>
    cases hj : s.job with
    | none => exact .inr (.inl ⟨rfl, rfl, rfl⟩)
    | some job =>
      obtain ⟨calls, cancelled, ⟨failure, hbuild⟩ | ⟨w, hfor, hbuild⟩⟩ := build_inv he job
      · exact .inr (.inr ⟨job, calls, cancelled, rfl, rfl,
          .inl ⟨failure, by simp [hbuild, hj, hw]⟩⟩)
      · exact .inr (.inr ⟨job, calls, cancelled, rfl, rfl,
          .inr ⟨w, hfor, by simp [hbuild, hj]⟩⟩)

/-- Preparing fails where the machine has no room for the blocks, and says for how many bytes. -/
theorem prepare_of_refused (hm : s.refusals.blocks = true) (hp : s.params.fault? = none)
    (hw : s.workspace = none) (hj : s.job = some job) :
    s.prepare = (({ s with requests := s.requests + 1 } : Session).tearDown,
      .error (.allocation "block store" (s.params.geometry.blockCount * Block.byteLength))) := by
  have hzeroed (job : Option JobWords) : Memory.zeroed s.params job s.refusals =
      .error (.allocation "block store" (s.params.geometry.blockCount * Block.byteLength)) := by
    rw [Memory.zeroed, Params.validate_eq_ok_iff.2 hp]
    exact if_pos hm
  simp [prepare, build, hw, hj, hzeroed]

/-- Preparing succeeds where the executor does its work, the machine refuses nothing and nobody
calls it off. -/
theorem exists_prepare (he : s.executor.IsReliable) (hm : s.refusals = {})
    (hp : s.params.fault? = none) (hcancelled : s.cancelled = false) (hw : s.workspace = none)
    (hj : s.job = some job) :
    ∃ w calls, w.IsFor s.params job.header ∧ s.prepare =
      ({ s with
        calls := calls, requests := s.requests + 1, workspace := some w, phase := .prepared },
        .ok ()) := by
  let f : Fill := { params := s.params, executor := s.executor }
  let c : Challenge := .ofHeader job.header
  let r₀ : FillRun :=
    { memory := .ofGeometry s.params.geometry (some c.jobWords), calls := s.calls }
  have hleft : f.IsLeftAlone r₀ := .inr ⟨rfl, he.isQuiet⟩
  have hfault : f.fault? r₀.memory = none := Fill.fault?_eq_none_iff.2 ⟨hp, rfl⟩
  obtain ⟨r, t, hr, ht⟩ :=
    Fill.exists_run_build he.returnsInOrder hleft rfl hfault job.header
  have hzeroed := Memory.zeroed_of_fault? hp (some c.jobWords)
  have hlow : r.cancelled = false := Fill.cancelled_run he.isQuiet hr
  obtain ⟨r', hr', hmemory⟩ := Fill.exists_serial_run he.isHonest hr
  refine ⟨⟨c, r.memory, t⟩, r.calls, ⟨rfl, ⟨_, r', hzeroed, hr', hmemory⟩, ht⟩, ?_⟩
  have hbuild : s.build job =
      ({ s with calls := r.calls, cancelled := r.cancelled, requests := s.requests + 1 },
        .ok ⟨c, r.memory, t⟩) := by
    unfold build
    dsimp only
    rw [hm, hzeroed, hcancelled]
    dsimp only
    rw [hr]
    dsimp only
    rw [ht]
  rw [hlow] at hbuild
  simp [prepare, hw, hj, hbuild, hcancelled]

end Session

end MemoryHard
