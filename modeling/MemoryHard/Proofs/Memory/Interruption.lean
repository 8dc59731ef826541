import MemoryHard.Executor.Scripted
import MemoryHard.Proofs.Argon2d.Refinement

/-!
# MemoryHard.Proofs.Memory.Interruption — a fill that stops halfway

A fill may stop at any slice: it is called off, the executor fails, or it hands back too few or
too many results.  Then the slices before are done and nothing of this one or a later one is
written.  A scheduler that has begun to fill refuses all further calls.

* `read_foldl_advance_of_fills` — a slice keeps the blocks of the three slices around it;
* `Memory.IsCutAt` — what is left behind where a fill stops;
* `slicesFrom_error`, `fill_error` — a fill stops at a slice and nowhere else;
* `Fill.Call`, `Fill.answers` — a history of calls to one scheduler, each on any memory;
* `answer_of_isClosed`, `answers_of_isClosed` — after a fill all of them are refused;
* `fill_cut` — all of this together;
* `Executor.isHonest_scripted`, `exists_slicesFrom_error` — an executor that stops a fill at a
  given slice.
-/

namespace MemoryHard

/-! ## The slice that is not written -/

namespace Memory

variable {m m' : Memory} {p : Position} {j k : Nat}

theorem SliceStep.read_of_fills (h : m.SliceStep j m') (hp : m.geometry.Fills k p)
    (hne : j % slices ≠ k % slices) :
    m'.read (p.absolute m.geometry) = m.read (p.absolute m.geometry) := by
  refine h.read_kept _ (Position.absolute_lt hp.isWithin) fun q hq heq => hne ?_
  have hplace : q.place m.geometry = p.place m.geometry := by
    rw [← Position.absolute_mod hq.isWithin, heq, Position.absolute_mod hp.isWithin]
  have hslice : q.slice = p.slice := by
    rw [← Position.place_div hq.isWithin, hplace, Position.place_div hp.isWithin]
  exact hq.2.1.symm.trans (hslice.trans hp.2.1)

/-- The blocks of a slice stay as they are until the slice itself has its turn. -/
theorem read_foldl_advance_of_fills (hg : m.geometry.IsRegular) (hp : m.geometry.Fills k p)
    (hj : j ≤ k) (hk : k < j + slices) :
    ((List.range k).foldl advance m).read (p.absolute m.geometry) =
      ((List.range j).foldl advance m).read (p.absolute m.geometry) := by
  have hkeep (n : Nat) (hn : j + n ≤ k) :
      ((List.range (j + n)).foldl advance m).read (p.absolute m.geometry) =
        ((List.range j).foldl advance m).read (p.absolute m.geometry) := by
    induction n with
    | zero => rfl
    | succ n ih =>
      have hgeo := geometry_foldl_advance m (List.range (j + n))
      have hne : (j + n) % slices ≠ k % slices := by
        simp only [slices] at hk ⊢
        omega
      have hstep := sliceStep_advance (hgeo ▸ hg) (j + n)
      have hread := hstep.read_of_fills (hgeo.symm ▸ hp) hne
      rw [hgeo] at hread
      rw [← Nat.add_assoc, foldl_advance_succ, hread, ih (by omega)]
  have hlast := hkeep (k - j) (by omega)
  rwa [Nat.add_sub_cancel' hj] at hlast

/-- What a fill of `m` comes to that is cut at slice number `k`: the slices before are overwritten,
with the lanes of each in any order, and the blocks of the slice itself still are what the last
slices have left there. -/
structure IsCutAt (m : Memory) (k : Nat) (m' : Memory) : Prop where
  memory_eq : ∀ order : Nat → List Nat, (∀ k, (order k).Perm (List.range m.geometry.lanes)) →
    m' = m.overwriteSlices order k
  read_eq : ∀ order : Nat → List Nat, (∀ k, (order k).Perm (List.range m.geometry.lanes)) →
    ∀ p, m.geometry.Fills k p → ∀ j ≤ k, k < j + slices →
      m'.read (p.absolute m.geometry) = (m.overwriteSlices order j).read (p.absolute m.geometry)

theorem isCutAt_foldl_advance (hg : m.geometry.IsRegular) (k : Nat) :
    m.IsCutAt k ((List.range k).foldl advance m) where
  memory_eq _ ho := foldl_advance_eq_overwriteSlices hg ho k
  read_eq order ho p hp j hj hk := by
    rw [← foldl_advance_eq_overwriteSlices hg ho j]
    exact read_foldl_advance_of_fills hg hp hj hk

end Memory

/-- A fill has begun, and it may have ended. -/
def FillRun.IsClosed (r : FillRun) : Prop :=
  r.progress = .complete ∨ ∃ pass slice, r.progress = .filling pass slice

namespace Fill

variable {f : Fill} {r r' : FillRun} {failure : Failure} {k count : Nat}

/-! ## Where a fill stops -/

/-- A run of slices stops before one of them, with those before it done. -/
theorem slicesFrom_error (he : f.executor.IsHonest)
    (h : f.slicesFrom r k count = .error (r', failure)) :
    ∃ n < count, r'.progress = .filling ((k + n) / slices) ((k + n) % slices) ∧
      r'.memory = (List.range' k n).foldl Memory.advance r.memory := by
  induction count generalizing r k with
  | zero => cases h
  | succ count ih =>
    rw [slicesFrom] at h
    rcases slice_inv he r k with ⟨r₁, found, h₁, hm, hp⟩ | ⟨r₁, h₁, hm⟩
    · rw [h₁] at h
      cases h
      exact ⟨0, Nat.succ_pos _, hp, hm⟩
    · -- the first slice is done, and one of the others is where the run stops
      rw [h₁] at h
      obtain ⟨n, hn, hp', hm'⟩ := ih h
      refine ⟨n + 1, Nat.succ_lt_succ hn, ?_, ?_⟩
      · rw [hp', Nat.add_assoc, Nat.add_comm 1]
      · rw [hm', hm, List.range'_succ, List.foldl_cons]

theorem fill_error (he : f.executor.IsHonest) (hp : r.progress = .seeded)
    (hf : f.fault? r.memory = none) (h : f.fill r = (r', .error failure)) :
    ∃ n < sliceCount r.memory.geometry, r'.progress = .filling (n / slices) (n % slices) ∧
      r'.memory = (List.range n).foldl Memory.advance r.memory := by
  unfold fill at h
  rw [if_neg (not_not_intro hp), hf] at h
  cases hs : f.slicesFrom r 0 (sliceCount r.memory.geometry) with
  | ok r₁ => simp [hs] at h
  | error stop =>
    simp only [hs, Prod.mk.injEq, Except.error.injEq] at h
    obtain ⟨rfl, rfl⟩ := h
    obtain ⟨n, hn, hprogress, hm⟩ := slicesFrom_error he hs
    rw [Nat.zero_add] at hprogress
    rw [← List.range_eq_range'] at hm
    exact ⟨n, hn, hprogress, hm⟩

/-! ## Calls that are refused -/

/-- A call to a scheduler. -/
inductive Call where
  | seed (inputs : HashInputs)
  | fill
  | run (inputs : HashInputs)

/-- What a call is refused for once a fill has begun. -/
def Call.refusal (progress : Progress) : Call → ParameterFault
  | .fill => .notSeeded progress
  | .seed _ => .seededTwice
  | .run _ => .seededTwice

/-- A call with what it finds: any memory, and the flag in any position. -/
structure Request where
  call : Call
  memory : Memory
  cancelled : Bool

/-- A scheduler as a request finds it. -/
def Request.find (q : Request) (r : FillRun) : FillRun :=
  { r with memory := q.memory, cancelled := q.cancelled }

section
variable [HashSuite]

/-- What a scheduler does on a call. -/
def answer (f : Fill) (r : FillRun) : Call → FillRun × Except Failure Unit
  | .seed inputs => f.seed r inputs
  | .fill => f.fill r
  | .run inputs => f.run r inputs

/-- What a scheduler does on some requests, one after the other. -/
def answers (f : Fill) (r : FillRun) : List Request → List (FillRun × Except Failure Unit)
  | [] => []
  | q :: rest =>
    let answer := f.answer (q.find r) q.call
    answer :: f.answers answer.1 rest

theorem seed_of_ne (h : r.progress ≠ .untouched) (inputs : HashInputs) :
    f.seed r inputs = (r, .error (.parameter .seededTwice)) := if_pos h

theorem seed_of_fault {fault : ParameterFault} (hp : r.progress = .untouched)
    (h : f.fault? r.memory = some fault) (inputs : HashInputs) :
    f.seed r inputs = (r, .error (.parameter fault)) := by
  unfold seed
  rw [if_neg (not_not_intro hp), h]

omit [HashSuite] in
theorem fill_of_ne (h : r.progress ≠ .seeded) :
    f.fill r = (r, .error (.parameter (.notSeeded r.progress))) := if_pos h

omit [HashSuite] in
theorem fill_of_fault {fault : ParameterFault} (hp : r.progress = .seeded)
    (h : f.fault? r.memory = some fault) : f.fill r = (r, .error (.parameter fault)) := by
  unfold fill
  rw [if_neg (not_not_intro hp), h]

theorem answer_of_isClosed (h : r.IsClosed) (call : Call) :
    f.answer r call = (r, .error (.parameter (call.refusal r.progress))) := by
  have hseed : r.progress ≠ .untouched := by
    rcases h with h | ⟨pass, slice, h⟩ <;> simp [h]
  have hfill : r.progress ≠ .seeded := by
    rcases h with h | ⟨pass, slice, h⟩ <;> simp [h]
  cases call with
  | seed inputs => exact seed_of_ne hseed inputs
  | fill => exact fill_of_ne hfill
  | run inputs =>
    show f.run r inputs = _
    rw [run, seed_of_ne hseed]
    rfl

/-- Once a fill has begun, whatever is asked is refused, and nothing changes. -/
theorem answers_of_isClosed (h : r.IsClosed) (requests : List Request) :
    f.answers r requests = requests.map fun q =>
      (q.find r, .error (.parameter (q.call.refusal r.progress))) := by
  induction requests generalizing r with
  | nil => rfl
  | cons q requests ih =>
    have hfound : (q.find r).IsClosed := h
    rw [answers, answer_of_isClosed hfound, List.map_cons]
    dsimp only
    rw [ih hfound]
    rfl

theorem seed_of_refused (h : r.progress ≠ .untouched ∨ f.fault? r.memory ≠ none)
    (inputs : HashInputs) : ∃ fault, f.seed r inputs = (r, .error (.parameter fault)) := by
  by_cases hp : r.progress = .untouched
  · obtain ⟨fault, hf⟩ := Option.ne_none_iff_exists'.1 (h.resolve_left (not_not_intro hp))
    exact ⟨fault, seed_of_fault hp hf inputs⟩
  · exact ⟨_, seed_of_ne hp inputs⟩

omit [HashSuite] in
theorem fill_of_refused (h : r.progress ≠ .seeded ∨ f.fault? r.memory ≠ none) :
    ∃ fault, f.fill r = (r, .error (.parameter fault)) := by
  by_cases hp : r.progress = .seeded
  · obtain ⟨fault, hf⟩ := Option.ne_none_iff_exists'.1 (h.resolve_left (not_not_intro hp))
    exact ⟨fault, fill_of_fault hp hf⟩
  · exact ⟨_, fill_of_ne hp⟩

end

end Fill

/-! ## Executors with an incident -/

/-- Whatever happens to a scripted executor, it hands back true results if any. -/
theorem Executor.isHonest_scripted (incident : Incident) (call : Nat) :
    (scripted incident call).IsHonest := by
  intro calls jobs f
  have hrun : (runInOrder jobs fun job => some (f job)) = .ok (jobs.map f) :=
    runInOrder_eq_ok fun _ _ => rfl
  unfold scripted
  dsimp only
  rw [hrun]
  by_cases h : calls = call
  case neg => exact .inr (.inr (by rw [if_pos h]))
  rw [if_neg (not_not_intro h)]
  cases incident with
  | fails => exact .inl ⟨_, rfl⟩
  | cancels => exact .inr (.inr rfl)
  | losesLast =>
    cases jobs with
    | nil => exact .inr (.inr rfl) -- nothing is lost where there is nothing
    | cons job jobs =>
      refine .inr (.inl ⟨((job :: jobs).map f).dropLast, rfl, ?_⟩)
      rw [List.length_dropLast, List.length_map, List.length_cons]
      omega

namespace Fill

variable {f : Fill} {r : FillRun}

theorem slice_of_fails (he : f.executor = .scripted .fails r.calls) (hc : r.cancelled = false)
    (k : Nat) :
    ∃ r', f.slice r k = .error (r', .thread (.stated "injected failure")) ∧
      r'.progress = .filling (k / slices) (k % slices) := by
  unfold slice
  simp [hc, he, Executor.scripted]

theorem slice_of_calls_ne {call : Nat} (he : f.executor = .scripted .fails call)
    (hne : r.calls ≠ call) (hc : r.cancelled = false) (k : Nat) :
    ∃ r', f.slice r k = .ok r' ∧ r'.calls = r.calls + 1 ∧ r'.cancelled = false := by
  unfold slice
  simp [hc, he, Executor.scripted, hne, runInOrder_eq_ok (fun _ _ => rfl)]

/-- Every slice may be the one at which a fill stops. -/
theorem exists_slicesFrom_error {n : Nat} (he : f.executor = .scripted .fails (r.calls + n))
    (hc : r.cancelled = false) {k count : Nat} (hn : n < count) :
    ∃ r', f.slicesFrom r k count = .error (r', .thread (.stated "injected failure")) ∧
      r'.progress = .filling ((k + n) / slices) ((k + n) % slices) := by
  induction n generalizing r k count with
  | zero =>
    obtain ⟨count, rfl⟩ := Nat.exists_eq_succ_of_ne_zero (Nat.ne_of_gt hn)
    obtain ⟨r', hr, hp⟩ := slice_of_fails he hc k
    rw [slicesFrom, hr]
    exact ⟨r', rfl, hp⟩
  | succ n ih =>
    obtain ⟨count, rfl⟩ := Nat.exists_eq_succ_of_ne_zero (Nat.ne_of_gt (Nat.zero_lt_of_lt hn))
    obtain ⟨r₁, hr, hcalls, hc₁⟩ := slice_of_calls_ne he (by omega) hc k
    rw [Nat.add_comm n 1, ← Nat.add_assoc, ← hcalls] at he
    rw [slicesFrom, hr, Nat.add_comm n 1, ← Nat.add_assoc]
    exact ih he hc₁ (Nat.lt_of_succ_lt_succ hn)

theorem exists_fill_error {n : Nat} (he : f.executor = .scripted .fails (r.calls + n))
    (hc : r.cancelled = false) (hp : r.progress = .seeded) (hf : f.fault? r.memory = none)
    (hn : n < sliceCount r.memory.geometry) :
    ∃ r' failure, f.fill r = (r', .error failure) ∧
      r'.progress = .filling (n / slices) (n % slices) := by
  obtain ⟨r', hr, hprogress⟩ := exists_slicesFrom_error he hc (k := 0) hn
  rw [Nat.zero_add] at hprogress
  unfold fill
  rw [if_neg (not_not_intro hp), hf]
  dsimp only
  rw [hr]
  exact ⟨r', _, rfl, hprogress⟩

/-! ## The cut -/

/-- A fill that stops, for whatever reason, is cut at the slice it has come to.  From then on, as
after a fill that ends, every call is refused.  A call that is refused changes nothing. -/
theorem fill_cut [HashSuite] (he : f.executor.IsHonest) :
    (∀ r r' failure, r.progress = .seeded → f.fault? r.memory = none →
      f.fill r = (r', .error failure) →
      ∃ pass slice, pass < f.params.passes.toNat ∧ slice < slices ∧
        r'.progress = .filling pass slice ∧ r.memory.IsCutAt (slices * pass + slice) r'.memory) ∧
    (∀ r : FillRun, r.IsClosed → ∀ requests, f.answers r requests = requests.map fun q =>
      (q.find r, .error (.parameter (q.call.refusal r.progress)))) ∧
    (∀ r inputs, r.progress ≠ .untouched ∨ f.fault? r.memory ≠ none →
      ∃ fault, f.seed r inputs = (r, .error (.parameter fault))) ∧
    ∀ r, r.progress ≠ .seeded ∨ f.fault? r.memory ≠ none →
      ∃ fault, f.fill r = (r, .error (.parameter fault)) := by
  refine ⟨?_, fun r h => answers_of_isClosed h, fun r inputs h => seed_of_refused h inputs,
    fun r h => fill_of_refused h⟩
  intro r r' failure hp hf h
  obtain ⟨n, hn, hprogress, hm⟩ := fill_error he hp hf h
  have hpasses : r.memory.geometry.passes = f.params.passes.toNat := by
    rw [(fault?_eq_none_iff.1 hf).2]
    rfl
  have hpass : n / slices < f.params.passes.toNat := hpasses ▸ Nat.div_lt_of_lt_mul hn
  have hsplit : slices * (n / slices) + n % slices = n := Nat.div_add_mod n slices
  refine ⟨n / slices, n % slices, hpass, Nat.mod_lt _ (by decide), hprogress, ?_⟩
  rw [hsplit, hm]
  exact Memory.isCutAt_foldl_advance (isRegular_of_fault? hf) n

/-- Two passes over sixteen blocks that stop at the second slice of the second pass. -/
theorem fill_cut_sixteen :
    let f : Fill := { params := .sixteen 2, executor := .scripted .fails 5 }
    let m : Memory := .ofGeometry f.params.geometry none
    ∃ r' failure, f.fill { memory := m, progress := .seeded } = (r', .error failure) ∧
      r'.progress = .filling 1 1 ∧ r'.memory = m.overwriteSlices (fun _ => [1, 0]) 5 ∧
      f.answers r' [⟨.run {}, m, false⟩, ⟨.fill, m, true⟩] =
        [({ r' with memory := m, cancelled := false }, .error (.parameter .seededTwice)),
          ({ r' with memory := m, cancelled := true },
            .error (.parameter (.notSeeded (.filling 1 1))))] := by
  intro f m
  have hperm : ∀ k : Nat, ([1, 0] : List Nat).Perm (List.range 2) := fun _ => by decide
  have hf : f.fault? m = none := by decide
  obtain ⟨r', failure, hr, hp⟩ := exists_fill_error (f := f)
    (r := { memory := m, progress := .seeded }) (n := 5) rfl rfl rfl hf (by decide)
  obtain ⟨hcut, hclosed, -⟩ := fill_cut (f := f) (Executor.isHonest_scripted .fails 5)
  obtain ⟨pass, slice, -, -, hp', hm⟩ := hcut _ r' failure rfl hf hr
  rw [hp] at hp'
  cases hp'
  refine ⟨r', failure, hr, hp, hm.memory_eq (fun _ => [1, 0]) hperm, ?_⟩
  rw [hclosed r' (.inr ⟨_, _, hp⟩)]
  simp [Request.find, Call.refusal, hp, slices]

end Fill

end MemoryHard
