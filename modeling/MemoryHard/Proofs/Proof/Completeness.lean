import MemoryHard.Digest.Standard
import MemoryHard.Proofs.Memory.Derivation
import MemoryHard.Proofs.Proof.Verdict

/-!
# MemoryHard.Proofs.Proof.Completeness — what is found is accepted

A memory that is filled for a header in a single pass holds at every index the block that belongs
there.  So nothing speaks against a proof that is found over it.

* `Params.proofFault?_with` — neither the jobs nor the difficulty matter to a proof;
* `Fill.exists_run_build`, `Fill.isReady_of_run` — memory and tree of a job, which make a prover;
* `Prover.verify_of_isWinning` — the proof of any nonce that wins is accepted;
* `verify_of_search` — so is all that a search finds, by one worker or by several;
* `Prover.exists_sixteen` — a small prover.
-/

namespace MemoryHard

open MemoryHard.Bytes

namespace Params

variable {p : Params}

theorem proofFault?_with (h : p.proofFault? = none) (jobs : UInt64) {bits : UInt64}
    (hb : bits.toNat ≤ digestBits) :
    ({ p with jobs := jobs, difficultyBits := bits } : Params).proofFault? = none := by
  obtain ⟨hf, h1⟩ := proofFault?_eq_none_iff.1 h
  obtain ⟨h2, h3, h4, h5, h6, h7, h8, h9, -⟩ := fault?_eq_none_iff.1 hf
  exact proofFault?_eq_none_iff.2
    ⟨fault?_eq_none_iff.2 ⟨h2, h3, h4, h5, h6, h7, h8, h9, hb⟩, h1⟩

end Params

theorem Memory.zeroed_eq_ok {p : Params} {job : Option JobWords} {refusals : Refusals} {m : Memory}
    (h : zeroed p job refusals = .ok m) : p.fault? = none ∧ m = ofGeometry p.geometry job := by
  unfold zeroed at h
  cases hv : p.validate with
  | error failure =>
    rw [hv] at h
    cases h
  | ok _ =>
    rw [hv] at h
    dsimp only at h
    split_ifs at h
    cases h
    exact ⟨Params.validate_eq_ok_iff.1 hv, rfl⟩

/-- Where there is room, the memory is there. -/
theorem Memory.zeroed_of_fault? {p : Params} (hp : p.fault? = none) (job : Option JobWords) :
    zeroed p job = .ok (ofGeometry p.geometry job) := by
  rw [zeroed, Params.validate_eq_ok_iff.2 hp]
  rfl

section
variable [HashSuite]

/-- A machine that refuses something builds no other tree, but none. -/
theorem HashTree.build_of_granted {p : Params} {c : Challenge} {m : Memory} {t : HashTree}
    {refusals : Refusals} (h : build p c m refusals = .ok t) : build p c m = .ok t := by
  unfold build at h ⊢
  cases hv : p.validate with
  | error failure =>
    rw [hv] at h
    cases h
  | ok _ =>
    rw [hv] at h
    exact ofBlocks_of_granted h

theorem HashTree.isOver_of_build {p : Params} {c : Challenge} {m : Memory} {t : HashTree}
    (h : build p c m = .ok t) : t.IsOver c p.nodeWidth m.blocks.toList := by
  unfold build at h
  cases hv : p.validate with
  | error failure =>
    rw [hv] at h
    cases h
  | ok _ =>
    rw [hv] at h
    exact isOver_of_ofBlocks h

/-- There is a tree over every memory of the right shape, where the machine grants it. -/
theorem HashTree.exists_build {p : Params} (hp : p.fault? = none) {m : Memory}
    (hm : m.geometry = p.geometry) (c : Challenge) : ∃ t, build p c m = .ok t := by
  obtain ⟨-, -, -, -, -, hmin, hmax, -⟩ := Params.fault?_eq_none_iff.1 hp
  have hlen : m.blocks.toList.length ≠ 0 := by
    rw [Array.length_toList, m.size_eq, hm]
    exact Nat.ne_of_gt (Params.isRegular_geometry hp).blockCount_pos
  have hwidth : ¬(p.nodeWidth < minNodeWidth ∨ maxNodeWidth < p.nodeWidth) := by omega
  unfold build
  rw [Params.validate_eq_ok_iff.2 hp]
  dsimp only
  rw [ofBlocks, if_neg hwidth, if_neg hlen]
  exact ⟨_, rfl⟩

namespace Fill

variable {f : Fill} {r₀ r : FillRun} {header : Bytes} {t : HashTree}

/-- The filled memory of a job and the tree over it make a prover. -/
theorem isReady_of_run (he : f.executor.IsHonest) (hp : f.params.proofFault? = none)
    (hr : f.run r₀ (.ofHeader header) = (r, .ok ()))
    (ht : HashTree.build f.params (.ofHeader header) r.memory = .ok t) :
    (⟨f.params, .ofHeader header, r.memory, t⟩ : Prover).IsReady where
  proofFault_eq := hp
  geometry_eq := (geometry_of_run he hr).trans (fault?_eq_none_iff.1 (run_ok he hr).1).2
  isOver := HashTree.isOver_of_build ht

/-- A fill for a job that is left alone ends, and there is a tree over what it leaves behind. -/
theorem exists_run_build (he : f.executor.ReturnsInOrder) (hl : f.IsLeftAlone r₀)
    (hp : r₀.progress = .untouched) (hf : f.fault? r₀.memory = none) (header : Bytes) :
    ∃ r t, f.run r₀ (.ofHeader header) = (r, .ok ()) ∧
      HashTree.build f.params (.ofHeader header) r.memory = .ok t := by
  obtain ⟨r, hr⟩ := exists_run he hl hp hf (.ofHeader header)
  obtain ⟨hparams, hgeometry⟩ := fault?_eq_none_iff.1 hf
  obtain ⟨t, ht⟩ := HashTree.exists_build hparams
    ((geometry_of_run he.isHonest hr).trans hgeometry) (.ofHeader header)
  exact ⟨r, t, hr, ht⟩

end Fill

namespace Prover

variable {p : Prover} {header : Bytes} {target : Target} {proof : Proof}

theorem verdict_of_isDerived {m : Memory} {job : JobWords} {h0 : Bytes} {visited : List Nat}
    (h : m.IsDerived (some job) h0) (hv : ∀ i ∈ visited, i < m.geometry.blockCount) :
    verdict m job h0 visited = .ok () :=
  verdict_eq_ok_iff.2 fun i hi => h i (hv i hi)

/-- The proof of a nonce that wins over a memory without a wrong block is accepted. -/
theorem verify_of_isWinning (h : p.IsReady) (hc : p.challenge = .ofHeader header)
    (hd : p.memory.IsDerived (some (Challenge.ofHeader header).jobWords)
      (prehash p.params (.ofHeader header)))
    (hw : p.IsWinning target proof) : proof.verify p.params header target = .ok () := by
  obtain ⟨nonce, visited, digest, hwalk, hmet, rfl⟩ := h.isWinning_iff.1 hw
  rw [h.verify_proofOf hc hwalk hmet]
  apply verdict_of_isDerived hd
  intro i hi
  rw [h.blockCount_eq]
  exact h.visited_lt hwalk i hi

/-- A prover with other jobs and another difficulty finds the same proofs. -/
theorem isWinning_with (jobs bits : UInt64) :
    ({ p with params := { p.params with jobs := jobs, difficultyBits := bits } } :
      Prover).IsWinning target proof ↔ p.IsWinning target proof := Iff.rfl

end Prover

variable {f : Fill} {r₀ r : FillRun} {header : Bytes} {t : HashTree} {target : Target}
  {proof : Proof}

/-- Over the memory that is filled for a header, with the tree that is built over it, a search
finds nothing but proofs that are accepted for the header and the target.  It may be the search of
one worker or a race under any schedule, and those who check may have other jobs and another
difficulty. -/
theorem verify_of_search {start stop : UInt32} (he : f.executor.IsHonest)
    (hp : f.params.validateForProof = .ok ())
    (hm : Memory.zeroed f.params (some (Challenge.ofHeader header).jobWords) = .ok r₀.memory)
    (hr : f.run r₀ (.ofHeader header) = (r, .ok ()))
    (ht : HashTree.build f.params (.ofHeader header) r.memory = .ok t)
    (hs : (∃ cancelled, (⟨f.params, .ofHeader header, r.memory, t⟩ : Prover).search target start
        stop cancelled = .ok (some proof)) ∨
      ∃ schedule, ((Race.start (nonceChunks f.params.jobs.toNat start.toNat stop.toNat)).run
        ⟨f.params, .ofHeader header, r.memory, t⟩ target schedule).outcome = .ok (some proof))
    (jobs : UInt64) {bits : UInt64} (hb : bits.toNat ≤ digestBits) :
    proof.verify { f.params with jobs := jobs, difficultyBits := bits } header target = .ok () := by
  have hfault := Params.validateForProof_eq_ok_iff.1 hp
  have hready := Fill.isReady_of_run he hfault hr ht
  have hderived := Fill.isDerived_of_run he (Params.proofFault?_eq_none_iff.1 hfault).2 hr
  have hjob : r₀.memory.job = some (Challenge.ofHeader header).jobWords := by
    rw [(Memory.zeroed_eq_ok hm).2]
    rfl
  rw [hjob] at hderived
  have hwin : (⟨f.params, .ofHeader header, r.memory, t⟩ : Prover).IsWinning target proof := by
    rcases hs with ⟨cancelled, hs⟩ | ⟨schedule, hs⟩
    · exact Prover.isWinning_of_search hs
    · exact Race.isWinning_of_outcome hs
  -- those who check look at jobs and difficulty only to see whether they are in range
  have hready' : (⟨{ f.params with jobs := jobs, difficultyBits := bits }, .ofHeader header,
      r.memory, t⟩ : Prover).IsReady :=
    ⟨Params.proofFault?_with hfault jobs hb, hready.geometry_eq, hready.isOver⟩
  exact Prover.verify_of_isWinning hready' rfl hderived ((Prover.isWinning_with jobs bits).2 hwin)

end

/-- A prover over sixteen blocks that are filled for a header. -/
theorem Prover.exists_sixteen (jobs : UInt64) :
    ∃ p : Prover, p.params = { Params.sixteen 1 with jobs := jobs } ∧
      p.challenge = .ofHeader [1, 2, 3] ∧
      HashTree.build p.params p.challenge p.memory = .ok p.tree ∧ p.IsReady ∧
      p.memory.IsDerived (some (Challenge.ofHeader [1, 2, 3]).jobWords)
        (prehash p.params (.ofHeader [1, 2, 3])) := by
  let f : Fill := { params := { Params.sixteen 1 with jobs := jobs }, executor := .serial }
  let c : Challenge := .ofHeader [1, 2, 3]
  let r₀ : FillRun := { memory := .ofGeometry f.params.geometry (some c.jobWords) }
  have hsixteen : (Params.sixteen 1).proofFault? = none := by decide
  have hfault : f.params.proofFault? = none := Params.proofFault?_with hsixteen jobs (by decide)
  obtain ⟨hvalid, hone⟩ := Params.proofFault?_eq_none_iff.1 hfault
  have he := Executor.isReliable_serial.returnsInOrder
  have hl : f.IsLeftAlone r₀ := .inr ⟨rfl, fun _ _ _ => rfl⟩
  have hf : f.fault? r₀.memory = none := Fill.fault?_eq_none_iff.2 ⟨hvalid, rfl⟩
  obtain ⟨r, t, hr, ht⟩ := Fill.exists_run_build he hl rfl hf [1, 2, 3]
  have hready := Fill.isReady_of_run he.isHonest hfault hr ht
  have hderived := Fill.isDerived_of_run he.isHonest hone hr
  exact ⟨⟨f.params, c, r.memory, t⟩, rfl, rfl, ht, hready, hderived⟩

theorem verify_of_search_sixteen :
    let f : Fill := { params := .sixteen 1, executor := .serial }
    let c : Challenge := .ofHeader [1, 2, 3]
    ∃ r t proof,
      f.run { memory := .ofGeometry f.params.geometry (some c.jobWords) } (.ofHeader [1, 2, 3]) =
        (r, .ok ()) ∧
      HashTree.build f.params c r.memory = .ok t ∧
      (⟨f.params, c, r.memory, t⟩ : Prover).search .easiest 0 1 false = .ok (some proof) ∧
      proof.verify { f.params with jobs := 3, difficultyBits := 8 } [1, 2, 3] .easiest =
        .ok () := by
  intro f c
  have hfault : f.params.proofFault? = none := by decide
  have hp := Params.validateForProof_eq_ok_iff.2 hfault
  have he := Executor.isReliable_serial.returnsInOrder
  let r₀ : FillRun := { memory := .ofGeometry f.params.geometry (some c.jobWords) }
  have hl : f.IsLeftAlone r₀ := .inr ⟨rfl, fun _ _ _ => rfl⟩
  obtain ⟨r, t, hr, ht⟩ := Fill.exists_run_build he hl rfl (by decide) [1, 2, 3]
  have hready := Fill.isReady_of_run he.isHonest hfault hr ht
  have hroom : f.params.walkFits = true := by decide
  obtain ⟨proof, hs⟩ := hready.exists_search hroom (show (0 : UInt32) < 1 by decide)
  exact ⟨r, t, proof, hr, ht, hs,
    verify_of_search he.isHonest hp rfl hr ht (.inl ⟨false, hs⟩) 3 (by decide)⟩

end MemoryHard
