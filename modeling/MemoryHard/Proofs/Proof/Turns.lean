import MemoryHard.Proofs.Proof.Race

/-!
# MemoryHard.Proofs.Proof.Turns — the turns of a race

Every turn of a worker brings it nearer to its rest, so a race ends if no worker is left out.  When
the workers take their turns one after the other, each until it rests, the race is the search in
ascending order.

* `Work.turnsLeft` — how many turns a worker has at most before it rests;
* `Race.isOver_run`, `Race.isOver_race` — a race in which every worker gets enough turns is over;
* `Race.exists_turns` — schedules in which every worker does;
* `Prover.searchFrom_eq_findSome?` — a search in ascending order, nonce by nonce;
* `Race.exists_run_alone`, `Race.exists_run_inOrder` — one worker, and all of them, until they rest;
* `Prover.exists_race_eq_search` — the search in ascending order is the race of some schedule.
-/

namespace MemoryHard

/-- How many turns a worker has at most before it rests. -/
def Work.turnsLeft : Work → Nat
  | .look next stop => 2 * (stop - next) + 2
  | .attempt next stop => 2 * (stop - (next + 1)) + 3
  | .deliver _ => 1
  | .rest | .stopped => 0

variable [HashSuite] {p : Prover} {target : Target} {r : Race} {number : Nat} {work : Work}

namespace Race

/-! ## Steps -/

theorem step_look {next stop : Nat} (h : r.workers[number]? = some (.look next stop)) :
    r.step p target number =
      { r with workers := r.workers.set number (r.afterLook p next stop) } := by
  unfold step
  rw [h]

theorem step_attempt {next stop : Nat} (h : r.workers[number]? = some (.attempt next stop)) :
    r.step p target number =
      { r with
        workers := r.workers.set number (afterAttempt p target next stop)
        tried := next :: r.tried } := by
  unfold step
  rw [h]

theorem step_deliver {proof : Proof} (h : r.workers[number]? = some (.deliver proof)) :
    r.step p target number =
      { r with workers := r.workers.set number .rest, slot := r.slot <|> some proof } := by
  unfold step
  rw [h]

/-! ## Progress -/

omit [HashSuite] in
theorem turnsLeft_afterLook (r : Race) (p : Prover) (next stop : Nat) :
    (r.afterLook p next stop).turnsLeft < (Work.look next stop).turnsLeft := by
  unfold afterLook
  split_ifs with hfull h
  · exact Nat.succ_pos _
  · exact Nat.succ_pos _
  · rw [not_or] at h
    simp only [Work.turnsLeft]
    omega

theorem turnsLeft_afterAttempt (p : Prover) (target : Target) (next stop : Nat) :
    (afterAttempt p target next stop).turnsLeft < (Work.attempt next stop).turnsLeft := by
  unfold afterAttempt
  dsimp only
  cases p.win? target (.ofNat next) with
  | none =>
    simp only [Work.turnsLeft]
    omega
  | some win =>
    dsimp only
    cases p.assemble (.ofNat next) win.2 win.1 <;> simp only [Work.turnsLeft] <;> omega

/-- A step of a worker changes what this worker is about to do, and brings it nearer to its
rest. -/
theorem step_inv (p : Prover) (target : Target) (h : r.workers[number]? = some work) :
    ∃ work', (r.step p target number).workers = r.workers.set number work' ∧
      work'.turnsLeft ≤ work.turnsLeft - 1 := by
  obtain ⟨hlt, hget⟩ := List.getElem?_eq_some_iff.1 h
  have hsame : r.workers.set number work = r.workers := by rw [← hget, List.set_getElem_self]
  unfold step
  rw [h]
  cases work with
  | look next stop => exact ⟨_, rfl, Nat.le_sub_one_of_lt (turnsLeft_afterLook r p next stop)⟩
  | attempt next stop =>
    exact ⟨_, rfl, Nat.le_sub_one_of_lt (turnsLeft_afterAttempt p target next stop)⟩
  | deliver proof => exact ⟨_, rfl, Nat.le_refl _⟩
  | rest => exact ⟨.rest, hsame.symm, Nat.le_refl _⟩
  | stopped => exact ⟨.stopped, hsame.symm, Nat.le_refl _⟩

theorem turnsLeft_turn (p : Prover) (target : Target) (h : r.workers[number]? = some work)
    (turn : Turn) :
    ∃ work', (r.turn p target turn).workers[number]? = some work' ∧
      work'.turnsLeft ≤ work.turnsLeft - [turn].count (.worker number) := by
  cases turn with
  | cancel => exact ⟨work, h, Nat.le_refl _⟩
  | worker other =>
    -- only a turn of its own brings a worker nearer to its rest
    by_cases heq : other = number
    · subst heq
      obtain ⟨work', hset, hle⟩ := step_inv p target h
      refine ⟨work', ?_, by simpa using hle⟩
      obtain ⟨hlt, -⟩ := List.getElem?_eq_some_iff.1 h
      show (r.step p target other).workers[other]? = _
      rw [hset, List.getElem?_set_self hlt]
    · refine ⟨work, ?_, by simp [heq]⟩
      show (r.step p target other).workers[number]? = _
      cases hother : r.workers[other]? with
      | none =>
        unfold step
        rw [hother]
        exact h
      | some busy =>
        obtain ⟨work', hset, -⟩ := step_inv p target hother
        rw [hset, List.getElem?_set_ne heq, h]

theorem turnsLeft_run (p : Prover) (target : Target) (h : r.workers[number]? = some work)
    (schedule : List Turn) :
    ∃ work', (r.run p target schedule).workers[number]? = some work' ∧
      work'.turnsLeft ≤ work.turnsLeft - schedule.count (.worker number) := by
  unfold run
  induction schedule generalizing r work with
  | nil => exact ⟨work, h, Nat.le_refl _⟩
  | cons turn schedule ih =>
    obtain ⟨work₁, h₁, hle₁⟩ := turnsLeft_turn p target h turn
    obtain ⟨work', h', hle'⟩ := ih h₁
    refine ⟨work', h', ?_⟩
    rw [← List.singleton_append, List.count_append]
    omega

omit [HashSuite] in
theorem isDone_of_turnsLeft (h : work.turnsLeft = 0) : work.isDone = true := by
  cases work with
  | rest => rfl
  | stopped => rfl
  | look next stop => cases h
  | attempt next stop => cases h
  | deliver proof => cases h

/-- A race in which every worker gets as many turns as it has left is over. -/
theorem isOver_run {schedule : List Turn} (h : ∀ number work, r.workers[number]? = some work →
    work.turnsLeft ≤ schedule.count (.worker number)) :
    (r.run p target schedule).isOver = true := by
  refine List.all_eq_true.2 fun work hwork => ?_
  obtain ⟨number, hlt, hget⟩ := List.getElem_of_mem hwork
  rw [length_workers_run] at hlt
  have hfirst := List.getElem?_eq_getElem hlt
  obtain ⟨work', hwork', hle⟩ := turnsLeft_run p target hfirst schedule
  have hcount := h number _ hfirst
  rw [List.getElem?_eq_some_iff] at hwork'
  obtain ⟨_, hget'⟩ := hwork'
  rw [← hget, hget']
  exact isDone_of_turnsLeft (by omega)

/-- Two turns for each nonce and two more are enough for every worker. -/
theorem isOver_race {start stop : UInt32} {schedule : List Turn}
    (h : ∀ number < (nonceChunks p.params.jobs.toNat start.toNat stop.toNat).length,
      2 * (stop.toNat - start.toNat) + 2 ≤ schedule.count (.worker number)) :
    (p.race target start stop schedule).isOver = true := by
  refine isOver_run fun number work hwork => ?_
  unfold Race.start at hwork
  rw [List.getElem?_map, Option.map_eq_some_iff] at hwork
  obtain ⟨chunk, hchunk, rfl⟩ := hwork
  obtain ⟨hlt, -⟩ := List.getElem?_eq_some_iff.1 hchunk
  have hbounds := bounds_of_mem_nonceChunks (List.mem_of_getElem? hchunk)
  have hcount := h number hlt
  simp only [Work.turnsLeft]
  omega

omit [HashSuite] in
@[simp] theorem count_turnsFrom (cancelled : Bool) (schedule : List Turn) (number : Nat) :
    (turnsFrom cancelled schedule).count (.worker number) = schedule.count (.worker number) := by
  cases cancelled with
  | false => rfl
  | true => exact List.count_cons_of_ne (by simp)

omit [HashSuite] in
/-- There are schedules in which every worker gets so many turns and nobody calls anything off. -/
theorem exists_turns (workers turns : Nat) : ∃ schedule : List Turn, .cancel ∉ schedule ∧
    ∀ number < workers, turns ≤ schedule.count (.worker number) := by
  induction workers with
  | zero => exact ⟨[], by simp, by simp⟩
  | succ workers ih =>
    obtain ⟨schedule, hcancel, hturns⟩ := ih
    refine ⟨schedule ++ List.replicate turns (.worker workers), by simp [hcancel], ?_⟩
    intro number hnumber
    rw [List.count_append]
    rcases Nat.lt_succ_iff_lt_or_eq.1 hnumber with hlt | rfl
    · exact Nat.le_add_right_of_le (hturns number hlt)
    · rw [List.count_replicate_self]
      exact Nat.le_add_left _ _

end Race

/-! ## In ascending order -/

namespace Prover

/-- The proof of a nonce, if it wins. -/
def proof? (p : Prover) (target : Target) (nonce : Nat) : Option Proof :=
  (p.win? target (.ofNat nonce)).bind fun win => p.assemble (.ofNat nonce) win.2 win.1

/-- A search in ascending order gives the proof of the first nonce that has one. -/
theorem searchFrom_eq_findSome? (hc : p.IsCommitted) (target : Target) (count lo : Nat) :
    p.searchFrom target count (.ofNat lo) = (List.range' lo count).findSome? (p.proof? target) := by
  induction count generalizing lo with
  | zero => rfl
  | succ count ih =>
    rw [searchFrom, List.range'_succ, List.findSome?_cons, ← ih, UInt32.ofNat_add]
    unfold proof?
    cases hwin : p.win? target (.ofNat lo) with
    | none => rfl
    | some win =>
      rw [Option.bind_some]
      dsimp only
      rw [hc.assemble_of_win hwin]

end Prover

omit [HashSuite] in
theorem findSome?_flatMap {α β γ : Type} (f : β → Option γ) (g : α → List β) (xs : List α) :
    (xs.flatMap g).findSome? f = xs.findSome? fun x => (g x).findSome? f := by
  induction xs with
  | nil => rfl
  | cons x xs ih =>
    rw [List.flatMap_cons, List.findSome?_append, List.findSome?_cons, ih]
    cases (g x).findSome? f <;> rfl

namespace Race

/-- What is found where workers search their chunks one after the other. -/
def foundIn (p : Prover) (target : Target) (chunks : List (Nat × Nat)) : Option Proof :=
  chunks.findSome? fun chunk => p.searchFrom target (chunk.2 - chunk.1) (.ofNat chunk.1)

theorem foundIn_nonceChunks (hc : p.IsCommitted) (target : Target) (jobs start stop : Nat) :
    foundIn p target (nonceChunks jobs start stop) =
      p.searchFrom target (stop - start) (.ofNat start) := by
  unfold foundIn
  simp only [Prover.searchFrom_eq_findSome? hc]
  rw [← flatMap_nonceChunks jobs start stop, findSome?_flatMap]
  rfl

/-- What the slot holds once a worker rests that looks at it and at the flag, and otherwise would
find a proof or not. -/
def slotAfter (r : Race) (found : Option Proof) : Option Proof :=
  if r.cancelled then r.slot else r.slot.or found

omit [HashSuite] in
theorem slotAfter_of_idle (h : r.slot.isSome ∨ r.cancelled) (found : Option Proof) :
    r.slotAfter found = r.slot := by
  unfold slotAfter
  split_ifs with hc
  · rfl
  · obtain ⟨proof, hslot⟩ := Option.isSome_iff_exists.1 (h.resolve_right hc)
    rw [hslot, Option.some_or]

omit [HashSuite] in
theorem slotAfter_of_busy (h : ¬(r.slot.isSome ∨ r.cancelled)) (found : Option Proof) :
    r.slotAfter found = found := by
  rw [not_or, Option.not_isSome_iff_eq_none] at h
  rw [slotAfter, if_neg h.2, h.1, Option.none_or]

theorem run_append (first second : List Turn) :
    r.run p target (first ++ second) = (r.run p target first).run p target second :=
  List.foldl_append

omit [HashSuite] in
theorem afterLook_of_room (hroom : p.params.walkFits = true) (r : Race) (next stop : Nat) :
    r.afterLook p next stop =
      if stop ≤ next ∨ r.slot.isSome ∨ r.cancelled then .rest else .attempt next stop := by
  rw [afterLook, hroom]
  rfl

/-- A worker that looks while there is a proof or the search is called off rests. -/
theorem run_look_of_idle (hroom : p.params.walkFits = true) {next stop : Nat}
    (h : r.workers[number]? = some (.look next stop))
    (hidle : stop ≤ next ∨ r.slot.isSome ∨ r.cancelled) :
    r.run p target [.worker number] = { r with workers := r.workers.set number .rest } := by
  show r.step p target number = _
  rw [step_look h, afterLook_of_room hroom, if_pos hidle]

theorem run_look_attempt (hroom : p.params.walkFits = true) (target : Target) {next stop : Nat}
    (h : r.workers[number]? = some (.look next stop))
    (hbusy : ¬(stop ≤ next ∨ r.slot.isSome ∨ r.cancelled)) :
    r.run p target [.worker number, .worker number] =
      { r with
        workers := r.workers.set number (afterAttempt p target next stop)
        tried := next :: r.tried } := by
  obtain ⟨hlt, -⟩ := List.getElem?_eq_some_iff.1 h
  have hattempt : ({ r with workers := r.workers.set number (.attempt next stop) } :
      Race).workers[number]? = some (.attempt next stop) := List.getElem?_set_self hlt
  show ((r.step p target number).step p target number) = _
  rw [step_look h, afterLook_of_room hroom, if_neg hbusy, step_attempt hattempt, List.set_set]

/-- A worker that comes to a nonce that wins puts the proof into the slot and rests. -/
theorem exists_run_win (hroom : p.params.walkFits = true) {next stop : Nat}
    {win : List Nat × WalkDigest} (h : r.workers[number]? = some (.look next stop))
    (hbusy : ¬(stop ≤ next ∨ r.slot.isSome ∨ r.cancelled))
    (hwin : p.win? target (.ofNat next) = some win) :
    ∃ schedule, Turn.cancel ∉ schedule ∧
      (r.run p target schedule).workers = r.workers.set number .rest ∧
      (r.run p target schedule).cancelled = r.cancelled ∧
      (r.run p target schedule).slot = p.assemble (.ofNat next) win.2 win.1 := by
  obtain ⟨hlt, -⟩ := List.getElem?_eq_some_iff.1 h
  have hrun := run_look_attempt hroom target h hbusy
  rw [not_or, not_or, Option.not_isSome_iff_eq_none] at hbusy
  obtain ⟨-, hslot, -⟩ := hbusy
  cases hproof : p.assemble (.ofNat next) win.2 win.1 with
  | none =>
    -- a proof that cannot be put together is lost, on both sides
    have hafter : afterAttempt p target next stop = .rest := by
      simp [afterAttempt, hwin, hproof]
    refine ⟨[.worker number, .worker number], by simp, ?_⟩
    rw [hrun, hafter]
    exact ⟨rfl, rfl, hslot⟩
  | some proof =>
    have hafter : afterAttempt p target next stop = .deliver proof := by
      simp [afterAttempt, hwin, hproof]
    rw [hafter] at hrun
    refine ⟨[.worker number, .worker number] ++ [.worker number], by simp, ?_⟩
    rw [run_append, hrun]
    show (step p target _ number).workers = _ ∧ (step p target _ number).cancelled = _ ∧
      (step p target _ number).slot = _
    rw [step_deliver (List.getElem?_set_self hlt), List.set_set]
    exact ⟨rfl, rfl, by rw [hslot]; rfl⟩

/-- A worker that takes its turns alone, from its look at the nonce `next` on, searches in
ascending order until it rests. -/
theorem exists_run_alone (hroom : p.params.walkFits = true) (target : Target) {next stop : Nat}
    (h : r.workers[number]? = some (.look next stop)) :
    ∃ schedule, Turn.cancel ∉ schedule ∧
      (r.run p target schedule).workers = r.workers.set number .rest ∧
      (r.run p target schedule).cancelled = r.cancelled ∧
      (r.run p target schedule).slot =
        r.slotAfter (p.searchFrom target (stop - next) (.ofNat next)) := by
  -- nothing that is shared changes while the worker searches, so what it sees first it sees always
  by_cases hidle : r.slot.isSome ∨ r.cancelled
  · refine ⟨[.worker number], by simp, ?_⟩
    rw [run_look_of_idle hroom h (.inr hidle), slotAfter_of_idle hidle]
    exact ⟨rfl, rfl, rfl⟩
  · obtain ⟨hlt, -⟩ := List.getElem?_eq_some_iff.1 h
    generalize hcount : stop - next = count
    induction count generalizing r next with
    | zero =>
      refine ⟨[.worker number], by simp, ?_⟩
      rw [run_look_of_idle hroom h (.inl (by omega)), slotAfter_of_busy hidle]
      rw [not_or, Option.not_isSome_iff_eq_none] at hidle
      exact ⟨rfl, rfl, hidle.1⟩
    | succ count ih =>
      have hbusy : ¬(stop ≤ next ∨ r.slot.isSome ∨ r.cancelled) := by
        rw [not_or]
        exact ⟨by omega, hidle⟩
      have hrun := run_look_attempt hroom target h hbusy
      rw [slotAfter_of_busy hidle, Prover.searchFrom]
      cases hwin : p.win? target (.ofNat next) with
      | none =>
        have hafter : afterAttempt p target next stop = .look (next + 1) stop := by
          simp [afterAttempt, hwin]
        rw [hafter] at hrun
        obtain ⟨schedule, hcancel, hworkers, hcancelled, hfound⟩ :=
          ih (r := { r with
            workers := r.workers.set number (.look (next + 1) stop), tried := next :: r.tried })
            (List.getElem?_set_self hlt) hidle (by rwa [List.length_set]) (by omega)
        refine ⟨[.worker number, .worker number] ++ schedule, by simp [hcancel], ?_⟩
        rw [run_append, hrun, hworkers, hcancelled, List.set_set]
        refine ⟨rfl, rfl, hfound.trans ((slotAfter_of_busy hidle _).trans ?_)⟩
        rw [UInt32.ofNat_add]
        rfl
      | some win => exact exists_run_win hroom h hbusy hwin

/-- Workers that take their turns one after the other, each until it rests, search their chunks in
this order.  Those of `before` rest already. -/
theorem exists_run_inOrder (hroom : p.params.walkFits = true) (target : Target) (r : Race)
    (before : List Work) {chunks : List (Nat × Nat)}
    (h : r.workers = before ++ chunks.map fun chunk => .look chunk.1 chunk.2)
    (hbefore : ∀ work ∈ before, work = .rest) :
    ∃ schedule, Turn.cancel ∉ schedule ∧ (r.run p target schedule).isOver = true ∧
      (r.run p target schedule).cancelled = r.cancelled ∧
      (r.run p target schedule).slot = r.slotAfter (foundIn p target chunks) := by
  induction chunks generalizing r before with
  | nil =>
    rw [List.map_nil, List.append_nil] at h
    refine ⟨[], by simp, isOver_iff.2 fun work hwork => .inl (hbefore work (h ▸ hwork)), rfl, ?_⟩
    show r.slot = _
    unfold slotAfter foundIn
    cases r.cancelled <;> simp
  | cons chunk chunks ih =>
    have hlook : r.workers[before.length]? = some (.look chunk.1 chunk.2) := by
      rw [h, List.getElem?_append_right (Nat.le_refl _), Nat.sub_self]
      rfl
    -- the first worker runs until it rests, and is then one of those before the others
    obtain ⟨first, hcancel₁, hworkers, hcancelled₁, hslot₁⟩ :=
      exists_run_alone hroom target hlook
    obtain ⟨schedule, hcancel, hover, hcancelled, hslot⟩ :=
      ih (r.run p target first) (before ++ [.rest])
        (by rw [hworkers, h, List.set_append_right _ _ (Nat.le_refl _), Nat.sub_self]; simp)
        (by simpa [or_imp, forall_and] using hbefore)
    refine ⟨first ++ schedule, by simp [hcancel₁, hcancel], ?_⟩
    rw [run_append]
    refine ⟨hover, hcancelled.trans hcancelled₁, hslot.trans ?_⟩
    unfold slotAfter foundIn at *
    rw [hslot₁, hcancelled₁, List.findSome?_cons]
    cases r.cancelled with
    | true => rfl
    | false => cases r.slot <;> cases p.searchFrom target _ _ <;> rfl

end Race

/-- Where there is room for a walk, the search in ascending order is the race of some schedule. -/
theorem Prover.exists_race_eq_search (hc : p.IsCommitted) (hroom : p.params.walkFits = true)
    (target : Target) (start stop : UInt32) (cancelled : Bool) :
    ∃ schedule, Turn.cancel ∉ schedule ∧
      (p.race target start stop (turnsFrom cancelled schedule)).isOver = true ∧
      (p.race target start stop (turnsFrom cancelled schedule)).outcome =
        if cancelled then .error .cancelled
        else .ok (p.searchFrom target (stop.toNat - start.toNat) start) := by
  let r : Race := Race.start (nonceChunks p.params.jobs.toNat start.toNat stop.toNat)
  obtain ⟨schedule, hcancel, hover, hcancelled, hslot⟩ :=
    Race.exists_run_inOrder hroom target { r with cancelled := cancelled } [] rfl (by simp)
  -- a flag that is up from the start is a turn before all others
  have hrace : p.race target start stop (turnsFrom cancelled schedule) =
      ({ r with cancelled := cancelled } : Race).run p target schedule := by
    cases cancelled <;> rfl
  have hstopped := (Race.isSound_race hc target start stop
    (turnsFrom cancelled schedule)).not_mem_stopped hroom
  refine ⟨schedule, hcancel, ?_⟩
  rw [hrace] at hstopped ⊢
  refine ⟨hover, ?_⟩
  rw [Race.outcome, if_neg hstopped, hslot, hcancelled]
  cases cancelled with
  | true => rfl
  | false =>
    have hfound := Race.foundIn_nonceChunks hc target p.params.jobs.toNat start.toNat stop.toNat
    rw [UInt32.ofNat_toNat] at hfound
    rw [hfound]
    cases p.searchFrom target _ start <;> rfl

end MemoryHard
