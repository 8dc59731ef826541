import MemoryHard.Proofs.Proof.Soundness

/-!
# MemoryHard.Proofs.Proof.Canonical — what the nonce and the root leave open

All openings of an accepted proof, and of two with one root, show the blocks of one store, unless a
collision is met.  The walk over this store and the derivations in it fix every opening that is
looked at.  What stands beside a seed is not looked at, so there an accepted proof may have any
openings that lead to the root, or none.

* `Opening.eq_or_collision`, `exists_store_or_collision` — the store that openings show;
* `Step.IsDerivedFrom`, `Proof.verify_iff_of_store` — an accepted proof in terms of the store;
* `Step.trimmed`, `Proof.trimmed` — a proof without what stands beside its seeds;
* `Proof.verify_iff_trimmed_eq` — the proofs that are accepted for a nonce and a root.
-/

namespace MemoryHard

open MemoryHard.Bytes

/-- A step without what stands beside a seed. -/
def Step.trimmed (step : Step) (g : Geometry) : Step :=
  if g.isSeed step.selected.index.toNat then ⟨step.selected, none, none⟩ else step

/-- A proof without what stands beside the seeds it visits. -/
def Proof.trimmed (proof : Proof) (g : Geometry) : Proof :=
  { proof with steps := proof.steps.map (·.trimmed g) }

/-- A step in which something stands beside a seed just if nothing did. -/
def Step.toggled (step : Step) (g : Geometry) : Step :=
  if g.isSeed step.selected.index.toNat then
    { step with previous := if step.previous.isSome then none else some step.selected }
  else step

/-- A proof with other openings beside the seeds it visits. -/
def Proof.toggled (proof : Proof) (g : Geometry) : Proof :=
  { proof with steps := proof.steps.map (·.toggled g) }

/-- All that is revealed in a proof. -/
def Proof.openings (proof : Proof) : List Opening := proof.steps.flatMap Step.openings

@[simp] theorem Step.selected_trimmed (step : Step) (g : Geometry) :
    (step.trimmed g).selected = step.selected := by
  unfold trimmed
  split <;> rfl

theorem Step.trimmed_of_isSeed {step : Step} {g : Geometry}
    (h : g.isSeed step.selected.index.toNat = true) :
    step.trimmed g = ⟨step.selected, none, none⟩ := if_pos h

theorem Step.trimmed_of_not_isSeed {step : Step} {g : Geometry}
    (h : g.isSeed step.selected.index.toNat = false) : step.trimmed g = step := by
  rw [trimmed, h]
  rfl

theorem Step.mem_openings_of_toggled {step : Step} {g : Geometry} {o : Opening}
    (ho : o ∈ (step.toggled g).openings) : o ∈ step.openings := by
  unfold toggled at ho
  unfold openings at ho ⊢
  split_ifs at ho with hs hp
  · rcases List.mem_cons.1 ho with rfl | ho
    · exact List.mem_cons_self
    · exact List.mem_cons_of_mem _ (List.mem_append_right _ ho)
  · rcases List.mem_cons.1 ho with rfl | ho
    · exact List.mem_cons_self
    · rcases List.mem_cons.1 ho with rfl | ho
      · exact List.mem_cons_self
      · exact List.mem_cons_of_mem _ (List.mem_append_right _ ho)
  · exact ho

@[simp] theorem Proof.selectedIndices_trimmed (proof : Proof) (g : Geometry) :
    (proof.trimmed g).selectedIndices = proof.selectedIndices := by
  unfold selectedIndices trimmed
  simp

section
variable [HashSuite] {p : Params} {c : Challenge} {root : Bytes} {os : List Opening}
  {store : Nat → Block}

/-! ## The store that openings show -/

/-- Two openings at one index that lead to one root are the same, or a collision is met. -/
theorem Opening.eq_or_collision {o o' : Opening} {block block' : Block}
    (h : o.check p c root = .ok block) (h' : o'.check p c root = .ok block')
    (hindex : o.index = o'.index) :
    o = o' ∨ Collision p.nodeWidth (o.messages c p.nodeWidth ++ o'.messages c p.nodeWidth) := by
  obtain ⟨-, hblock, hverify⟩ := check_eq_ok_iff.1 h
  obtain ⟨-, hblock', hverify'⟩ := check_eq_ok_iff.1 h'
  rw [← hindex] at hverify'
  unfold messages
  rw [hblock, hblock', ← hindex]
  rcases HashPath.eq_or_collision hverify hverify' with ⟨-, rfl, hpath⟩ | hcollision
  · obtain ⟨index, bytes, path⟩ := o
    obtain ⟨index', bytes', path'⟩ := o'
    have hbytes : bytes = bytes' :=
      (Block.ofBytes?_eq_some_iff.1 hblock).trans (Block.ofBytes?_eq_some_iff.1 hblock').symm
    dsimp only at hindex hpath
    exact .inl (by rw [hindex, hbytes, hpath])
  · exact .inr hcollision

/-- Openings that lead to one root show the blocks of a store, each index in one way only, or a
collision is met. -/
theorem exists_store_or_collision (h : ∀ o ∈ os, ∃ block, o.check p c root = .ok block) :
    Collision p.nodeWidth (os.flatMap fun o => o.messages c p.nodeWidth) ∨
      (∀ o ∈ os, ∀ o' ∈ os, o.index = o'.index → o = o') ∧
        ∃ store : Nat → Block, ∀ o ∈ os, o.check p c root = .ok (store o.index.toNat) := by
  by_cases hcollision : Collision p.nodeWidth (os.flatMap fun o => o.messages c p.nodeWidth)
  · exact .inl hcollision
  have hagree : ∀ o ∈ os, ∀ o' ∈ os, o.index = o'.index → o = o' := by
    intro o ho o' ho' hindex
    obtain ⟨block, hblock⟩ := h o ho
    obtain ⟨block', hblock'⟩ := h o' ho'
    refine (Opening.eq_or_collision hblock hblock' hindex).resolve_right fun hfound => ?_
    refine hcollision (hfound.mono (List.append_subset.2 ⟨?_, ?_⟩))
    · exact fun x hx => List.mem_flatMap.2 ⟨o, ho, hx⟩
    · exact fun x hx => List.mem_flatMap.2 ⟨o', ho', hx⟩
  -- an index that is not shown may hold any block
  have hblock : ∀ i, ∃ block, ∀ o ∈ os, o.index.toNat = i → o.check p c root = .ok block := by
    intro i
    by_cases hi : ∃ o ∈ os, o.index.toNat = i
    · obtain ⟨o, ho, rfl⟩ := hi
      obtain ⟨block, hcheck⟩ := h o ho
      exact ⟨block, fun o' ho' hindex => hagree o' ho' o ho (UInt32.toNat_inj.1 hindex) ▸ hcheck⟩
    · exact ⟨.zero, fun o ho hindex => absurd ⟨o, ho, hindex⟩ hi⟩
  obtain ⟨store, hstore⟩ := Classical.axiomOfChoice hblock
  exact .inr ⟨hagree, store, fun o ho => hstore _ o ho rfl⟩

/-! ## Steps -/

/-- A step visits the block that is derived in its place, and if this is no seed, the step reveals
what it is derived from. -/
def Step.IsDerivedFrom (step : Step) (p : Params) (h0 : Bytes) (job : JobWords)
    (store : Nat → Block) : Prop :=
  let g := p.geometry
  let i := step.selected.index.toNat
  if g.isSeed i then store i = seedBlock h0 (i / g.laneLength) (i % g.laneLength)
  else ∃ previous reference, step.previous = some previous ∧ step.reference = some reference ∧
    previous.index.toNat = i - 1 ∧
    reference.index.toNat = g.reference (g.locate i) (store (i - 1)).firstWord ∧
    store i = Block.derive (store (i - 1)) (store reference.index.toNat) none
      (some ⟨job, UInt64.ofNat i⟩)

theorem Step.isDerivedFrom_trimmed {step : Step} {h0 : Bytes} {job : JobWords} :
    (step.trimmed p.geometry).IsDerivedFrom p h0 job store ↔ step.IsDerivedFrom p h0 job store := by
  cases hs : p.geometry.isSeed step.selected.index.toNat with
  | true =>
    rw [trimmed_of_isSeed hs]
    unfold IsDerivedFrom
    simp [hs]
  | false => rw [trimmed_of_not_isSeed hs]

namespace Proof

variable {known : Revealed} {proof proof' : Proof} {header : Bytes} {target : Target}

theorem checkStep_iff_isDerivedFrom {h0 : Bytes} {job : JobWords} {step : Step}
    (hknown : ∀ o ∈ step.openings, known.get? o.index.toNat = some (store o.index.toNat)) :
    checkStep p h0 job known step = .ok () ↔ step.IsDerivedFrom p h0 job store := by
  have hselected := hknown step.selected List.mem_cons_self
  rw [checkStep_eq_ok_iff, hselected]
  unfold derivedBlock Step.IsDerivedFrom
  cases hs : p.geometry.isSeed step.selected.index.toNat with
  | true => simp [hs, eq_comm]
  | false =>
    cases hprevious : step.previous with
    | none => simp [hs]
    | some previous =>
      cases hreference : step.reference with
      | none => simp [hs]
      | some reference =>
        have hbefore := hknown previous (by simp [Step.openings, hprevious])
        have hother := hknown reference (by simp [Step.openings, hreference])
        simp only [hs, hbefore, Bool.false_eq_true, if_false, Option.some.injEq, exists_eq_left',
          exists_and_left]
        -- a step that names another place for either antecedent fails on both sides
        by_cases hi : previous.index.toNat = step.selected.index.toNat - 1
        · rw [hi]
          by_cases hr : reference.index.toNat = p.geometry.reference
              (p.geometry.locate step.selected.index.toNat)
              (store (step.selected.index.toNat - 1)).firstWord
          · rw [← hr, hother]
            simp [eq_comm]
          · simp [hr]
        · simp [hi]

/-- Whether a proof is accepted whose openings show the blocks of a store. -/
theorem verify_iff_of_store
    (hstore : ∀ o ∈ proof.openings,
      o.check p (.ofHeader header) proof.root = .ok (store o.index.toNat)) :
    proof.verify p header target = .ok () ↔ p.proofFault? = none ∧
      proof.steps.length = p.searchLength.toNat ∧ proof.root.length = p.nodeWidth ∧
      walk (fun i => some (store i)) p (.ofHeader header) proof.root proof.nonce =
        (proof.selectedIndices.map UInt32.toNat, some proof.digest) ∧
      target.isMetBy proof.digest = true ∧
      ∀ step ∈ proof.steps, step.IsDerivedFrom p (prehash p (.ofHeader header))
        (Challenge.ofHeader header).jobWords store := by
  obtain ⟨known, hreveal, hget, -⟩ := revealOpenings_eq_ok hstore {}
  have hknown : ∀ step ∈ proof.steps, ∀ o ∈ step.openings,
      known.get? o.index.toNat = some (store o.index.toNat) :=
    fun step hstep o ho => hget o (List.mem_flatMap.2 ⟨step, hstep, ho⟩)
  -- the walk comes by selected blocks only, so it does not tell the store from what is known
  have hvisited : ∀ i ∈ proof.selectedIndices.map UInt32.toNat,
      known.get? i = some (store i) := by
    intro i hi
    obtain ⟨index, hindex, rfl⟩ := List.mem_map.1 hi
    obtain ⟨step, hstep, rfl⟩ := List.mem_map.1 hindex
    exact hknown step hstep _ List.mem_cons_self
  have hwalk : walk known.get? p (.ofHeader header) proof.root proof.nonce =
        (proof.selectedIndices.map UInt32.toNat, some proof.digest) ↔
      walk (fun i => some (store i)) p (.ofHeader header) proof.root proof.nonce =
        (proof.selectedIndices.map UInt32.toNat, some proof.digest) :=
    ⟨fun h => walkFrom_congr h fun i hi => (hvisited i hi).symm,
      fun h => walkFrom_congr h hvisited⟩
  have hderived : (∀ step ∈ proof.steps, checkStep p (prehash p (.ofHeader header))
        (Challenge.ofHeader header).jobWords known step = .ok ()) ↔
      ∀ step ∈ proof.steps, step.IsDerivedFrom p (prehash p (.ofHeader header))
        (Challenge.ofHeader header).jobWords store :=
    forall₂_congr fun step hstep => checkStep_iff_isDerivedFrom (hknown step hstep)
  rw [verify_eq_ok_iff]
  constructor
  · rintro ⟨hp, hsteps, hroot, known', hreveal', hcheck, hsound⟩
    cases hreveal.symm.trans hreveal'
    obtain ⟨hends, hmet⟩ := (checkWalk_eq_ok_iff hsteps).1 hcheck
    exact ⟨hp, hsteps, hroot, hwalk.1 hends, hmet,
      hderived.1 (checkDerivations_eq_ok_iff.1 hsound)⟩
  · rintro ⟨hp, hsteps, hroot, hends, hmet, hsound⟩
    exact ⟨hp, hsteps, hroot, known, hreveal,
      (checkWalk_eq_ok_iff hsteps).2 ⟨hwalk.2 hends, hmet⟩,
      checkDerivations_eq_ok_iff.2 (hderived.2 hsound)⟩

/-- Two steps that visit one block and show the blocks of one store differ in what stands beside a
seed, and in nothing else. -/
theorem trimmed_eq_of_isDerivedFrom {h0 : Bytes} {job : JobWords} {step step' : Step}
    (hagree : ∀ o ∈ step.openings, ∀ o' ∈ step'.openings, o.index = o'.index → o = o')
    (hindex : step.selected.index = step'.selected.index)
    (h : step.IsDerivedFrom p h0 job store) (h' : step'.IsDerivedFrom p h0 job store) :
    step.trimmed p.geometry = step'.trimmed p.geometry := by
  have hselected : step.selected = step'.selected :=
    hagree _ List.mem_cons_self _ List.mem_cons_self hindex
  cases hs : p.geometry.isSeed step.selected.index.toNat with
  | true =>
    rw [Step.trimmed_of_isSeed hs, Step.trimmed_of_isSeed (hindex ▸ hs), hselected]
  | false =>
    unfold Step.IsDerivedFrom at h h'
    rw [← hindex] at h'
    simp only [hs, Bool.false_eq_true, if_false] at h h'
    obtain ⟨previous, reference, hp, hr, hpi, hri, -⟩ := h
    obtain ⟨previous', reference', hp', hr', hpi', hri', -⟩ := h'
    -- the store says where both are found, and the openings there are the same
    have hprevious : previous = previous' :=
      hagree _ (by simp [Step.openings, hp]) _ (by simp [Step.openings, hp'])
        (UInt32.toNat_inj.1 (hpi.trans hpi'.symm))
    have hreference : reference = reference' :=
      hagree _ (by simp [Step.openings, hr]) _ (by simp [Step.openings, hr'])
        (UInt32.toNat_inj.1 (hri.trans hri'.symm))
    rw [Step.trimmed_of_not_isSeed hs, Step.trimmed_of_not_isSeed (hindex ▸ hs)]
    obtain ⟨selected, _, _⟩ := step
    obtain ⟨selected', _, _⟩ := step'
    dsimp only at hselected hp hr hp' hr'
    rw [hselected, hp, hr, hp', hr', hprevious, hreference]

theorem isSome_of_verify (h : proof.verify p header target = .ok ()) {step : Step}
    (hstep : step ∈ proof.steps)
    (hs : p.geometry.isSeed step.selected.index.toNat = false) :
    step.previous.isSome ∧ step.reference.isSome := by
  obtain ⟨-, -, -, known, -, -, hderived⟩ := verify_eq_ok_iff.1 h
  obtain ⟨block, -, hblock⟩ :=
    checkStep_eq_ok_iff.1 (checkDerivations_eq_ok_iff.1 hderived step hstep)
  unfold derivedBlock at hblock
  cases hprevious : step.previous with
  | none => simp [hs, hprevious] at hblock
  | some previous =>
    cases hreference : step.reference with
    | none => simp [hs, hprevious, hreference] at hblock
    | some reference => exact ⟨rfl, rfl⟩

theorem check_of_verify (h : proof.verify p header target = .ok ()) :
    ∀ o ∈ proof.openings, ∃ block, o.check p (.ofHeader header) proof.root = .ok block := by
  obtain ⟨-, -, -, known, hreveal, -⟩ := verify_eq_ok_iff.1 h
  exact check_of_revealOpenings hreveal

theorem trimmed_eq_of_verify (hnonce : proof'.nonce = proof.nonce)
    (hroot : proof'.root = proof.root)
    (hagree : ∀ o ∈ proof.openings, ∀ o' ∈ proof'.openings, o.index = o'.index → o = o')
    (hstore : ∀ o ∈ proof.openings,
      o.check p (.ofHeader header) proof.root = .ok (store o.index.toNat))
    (hstore' : ∀ o ∈ proof'.openings,
      o.check p (.ofHeader header) proof'.root = .ok (store o.index.toNat))
    (h : proof.verify p header target = .ok ()) (h' : proof'.verify p header target = .ok ()) :
    proof'.trimmed p.geometry = proof.trimmed p.geometry := by
  obtain ⟨-, hlen, -, hwalk, -, hderived⟩ := (verify_iff_of_store hstore).1 h
  obtain ⟨-, hlen', -, hwalk', -, hderived'⟩ := (verify_iff_of_store hstore').1 h'
  rw [hnonce, hroot] at hwalk'
  -- one nonce, one root and one store make one walk
  obtain ⟨hvisited, hlast⟩ := Prod.mk.inj (hwalk'.symm.trans hwalk)
  have hindices : proof'.selectedIndices = proof.selectedIndices :=
    (List.map_inj_right fun _ _ => UInt32.toNat_inj.1).1 hvisited
  have hsteps : proof'.steps.map (·.trimmed p.geometry) =
      proof.steps.map (·.trimmed p.geometry) := by
    refine List.ext_getElem (by simp [hlen, hlen']) fun n hn hn' => ?_
    rw [List.length_map] at hn hn'
    rw [List.getElem_map, List.getElem_map]
    have hmem := List.getElem_mem hn
    have hmem' := List.getElem_mem hn'
    have hindex : proof'.steps[n].selected.index = proof.steps[n].selected.index := by
      have hget := List.getElem_of_eq hindices (i := n) (by rwa [length_selectedIndices])
      simpa [selectedIndices] using hget
    refine (trimmed_eq_of_isDerivedFrom ?_ hindex.symm (hderived _ hmem') (hderived' _ hmem)).symm
    exact fun o ho o' ho' => hagree o (List.mem_flatMap.2 ⟨_, hmem', ho⟩) o'
      (List.mem_flatMap.2 ⟨_, hmem, ho'⟩)
  unfold trimmed
  rw [hsteps, hnonce, hroot, Option.some.inj hlast]

/-- What is accepted remains so if only what stands beside seeds is changed, as long as it shows
the blocks of the store. -/
theorem verify_of_trimmed_eq (htrimmed : proof'.trimmed p.geometry = proof.trimmed p.geometry)
    (hstore : ∀ o ∈ proof.openings,
      o.check p (.ofHeader header) proof.root = .ok (store o.index.toNat))
    (hstore' : ∀ o ∈ proof'.openings,
      o.check p (.ofHeader header) proof'.root = .ok (store o.index.toNat))
    (h : proof.verify p header target = .ok ()) : proof'.verify p header target = .ok () := by
  obtain ⟨hp, hlen, hwidth, hwalk, hmet, hderived⟩ := (verify_iff_of_store hstore).1 h
  have hnonce : proof'.nonce = proof.nonce := congrArg (·.nonce) htrimmed
  have hroot : proof'.root = proof.root := congrArg (·.root) htrimmed
  have hdigest : proof'.digest = proof.digest := congrArg (·.digest) htrimmed
  have hsteps : proof'.steps.map (·.trimmed p.geometry) =
      proof.steps.map (·.trimmed p.geometry) := congrArg (·.steps) htrimmed
  have hindices : proof'.selectedIndices = proof.selectedIndices := by
    rw [← selectedIndices_trimmed proof' p.geometry, htrimmed, selectedIndices_trimmed]
  refine (verify_iff_of_store hstore').2 ⟨hp, ?_, hroot ▸ hwidth, ?_, hdigest ▸ hmet, ?_⟩
  · have hlength := congrArg List.length hsteps
    rw [List.length_map, List.length_map] at hlength
    rw [hlength, hlen]
  · rw [hroot, hnonce, hindices, hdigest, hwalk]
  · intro step' hstep'
    -- beside seeds apart, the step is one of the accepted proof
    have hmem : step'.trimmed p.geometry ∈ proof.steps.map (·.trimmed p.geometry) :=
      hsteps ▸ List.mem_map_of_mem hstep'
    obtain ⟨step, hstep, heq⟩ := List.mem_map.1 hmem
    rw [← Step.isDerivedFrom_trimmed, ← heq, Step.isDerivedFrom_trimmed]
    exact hderived step hstep

/-! ## Beside seeds -/

omit [HashSuite] in
theorem mem_openings_of_toggled {g : Geometry} {o : Opening} (ho : o ∈ (proof.toggled g).openings) :
    o ∈ proof.openings := by
  obtain ⟨toggled, htoggled, ho⟩ := List.mem_flatMap.1 ho
  obtain ⟨step, hstep, rfl⟩ := List.mem_map.1 htoggled
  exact List.mem_flatMap.2 ⟨step, hstep, Step.mem_openings_of_toggled ho⟩

omit [HashSuite] in
theorem trimmed_toggled (proof : Proof) (g : Geometry) :
    (proof.toggled g).trimmed g = proof.trimmed g := by
  unfold trimmed toggled
  rw [List.map_map]
  congr 1
  refine List.map_congr_left fun step _ => ?_
  unfold Step.trimmed Step.toggled
  by_cases hs : g.isSeed step.selected.index.toNat = true <;> simp [hs]

/-- Of an accepted proof that visits a seed there is another form that is accepted, unless a
collision is met among what is hashed for its paths. -/
theorem exists_ne_of_verify (h : proof.verify p header target = .ok ()) {step : Step}
    (hstep : step ∈ proof.steps) (hs : p.geometry.isSeed step.selected.index.toNat = true) :
    Collision p.nodeWidth (proof.messages (.ofHeader header) p.nodeWidth) ∨
      ∃ proof' ≠ proof, proof'.nonce = proof.nonce ∧ proof'.root = proof.root ∧
        proof'.verify p header target = .ok () := by
  rcases exists_store_or_collision (check_of_verify h) with hcollision | ⟨-, store, hstore⟩
  · exact .inl hcollision
  refine .inr ⟨proof.toggled p.geometry, ?_, rfl, rfl, verify_of_trimmed_eq
    (trimmed_toggled proof p.geometry) hstore (fun o ho => hstore o (mem_openings_of_toggled ho)) h⟩
  -- beside the seed of `step` one form shows a block and the other does not
  intro heq
  have hsteps : proof.steps.map (·.toggled p.geometry) = proof.steps.map id := by
    rw [List.map_id]
    exact congrArg (·.steps) heq
  have hsame := List.map_inj_left.1 hsteps step hstep
  unfold Step.toggled at hsame
  rw [if_pos hs] at hsame
  have hprevious := congrArg (fun step => step.previous.isSome) hsame
  cases hp : step.previous <;> simp [hp] at hprevious

/-- Given an accepted proof, unless a collision is met among what is hashed for the paths of two
proofs: a proof for the same nonce and root is accepted just if it differs from the given one in
nothing but what stands beside seeds, and if all its openings lead to the root.  And an accepted
proof reveals what every block it visits is derived from, seeds apart. -/
theorem verify_iff_trimmed_eq (h : proof.verify p header target = .ok ())
    (hnonce : proof'.nonce = proof.nonce) (hroot : proof'.root = proof.root) :
    (∀ step ∈ proof.steps, p.geometry.isSeed step.selected.index.toNat = false →
      step.previous.isSome ∧ step.reference.isSome) ∧
    (Collision p.nodeWidth (proof.messages (.ofHeader header) p.nodeWidth ++
        proof'.messages (.ofHeader header) p.nodeWidth) ∨
      (proof'.verify p header target = .ok () ↔
        proof'.trimmed p.geometry = proof.trimmed p.geometry ∧
          ∀ o ∈ proof'.openings, ∃ block,
            o.check p (.ofHeader header) proof'.root = .ok block)) := by
  refine ⟨fun step hstep hs => isSome_of_verify h hstep hs, ?_⟩
  by_cases hcheck' : ∀ o ∈ proof'.openings, ∃ block,
      o.check p (.ofHeader header) proof'.root = .ok block
  case neg =>
    exact .inr ⟨fun h' => absurd (check_of_verify h') hcheck', fun h' => absurd h'.2 hcheck'⟩
  -- the openings of both proofs lead to one root, so they show the blocks of one store
  have hcheck : ∀ o ∈ proof.openings ++ proof'.openings, ∃ block,
      o.check p (.ofHeader header) proof.root = .ok block := by
    intro o ho
    rcases List.mem_append.1 ho with ho | ho
    · exact check_of_verify h o ho
    · exact hroot ▸ hcheck' o ho
  rcases exists_store_or_collision hcheck with hcollision | ⟨hagree, store, hstore⟩
  · rw [List.flatMap_append] at hcollision
    exact .inl hcollision
  have hfirst : ∀ o ∈ proof.openings,
      o.check p (.ofHeader header) proof.root = .ok (store o.index.toNat) :=
    fun o ho => hstore o (List.mem_append_left _ ho)
  have hsecond : ∀ o ∈ proof'.openings,
      o.check p (.ofHeader header) proof'.root = .ok (store o.index.toNat) :=
    fun o ho => hroot ▸ hstore o (List.mem_append_right _ ho)
  refine .inr ⟨fun h' => ⟨?_, hcheck'⟩, fun h' => verify_of_trimmed_eq h'.1 hfirst hsecond h⟩
  exact trimmed_eq_of_verify hnonce hroot (fun o ho o' ho' => hagree o (List.mem_append_left _ ho)
    o' (List.mem_append_right _ ho')) hfirst hsecond h h'

end Proof

end

/-- A proof over sixteen blocks, and its other form. -/
theorem Proof.verify_iff_trimmed_eq_sixteen :
    let p : Params := { Params.sixteen 1 with jobs := 1 }
    let c : Challenge := .ofHeader [1, 2, 3]
    ∃ proof proof' : Proof, proof' = proof.toggled p.geometry ∧
      proof.verify p [1, 2, 3] .easiest = .ok () ∧
      (Collision p.nodeWidth (proof.messages c p.nodeWidth ++ proof'.messages c p.nodeWidth) ∨
        proof'.verify p [1, 2, 3] .easiest = .ok ()) := by
  intro p c
  obtain ⟨prover, hparams, hc, -, hready, hderived⟩ := Prover.exists_sixteen 1
  obtain ⟨visited, digest, hwalk⟩ := hready.exists_walk 7
  have hwin := hready.isWinning_iff.2
    ⟨7, visited, digest, hwalk, Target.isMetBy_easiest digest, rfl⟩
  have hverify := Prover.verify_of_isWinning hready hc hderived hwin
  rw [hparams] at hverify
  let proof := prover.proofOf 7 digest visited
  have hnonce : (proof.toggled p.geometry).nonce = proof.nonce := rfl
  have hroot : (proof.toggled p.geometry).root = proof.root := rfl
  refine ⟨proof, _, rfl, hverify, ?_⟩
  obtain ⟨-, hcollision | hiff⟩ := verify_iff_trimmed_eq hverify hnonce hroot
  · exact .inl hcollision
  · exact .inr (hiff.2 ⟨trimmed_toggled _ _,
      fun o ho => check_of_verify hverify o (mem_openings_of_toggled ho)⟩)

end MemoryHard
