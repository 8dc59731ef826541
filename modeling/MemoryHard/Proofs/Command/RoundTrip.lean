import MemoryHard.Command.Schedule
import MemoryHard.Digest.Standard
import MemoryHard.Proofs.Executor.Batches
import MemoryHard.Proofs.Proof.Format
import MemoryHard.Proofs.Session.Failures
import MemoryHard.Proofs.Session.Transparency

/-!
# MemoryHard.Proofs.Command.RoundTrip — what a search prints is valid

The text of a proof that the search command prints is read as this proof, and it is accepted for
the header, the target and the parameters of the search.

* `Workspace.IsFor.verify_with`, `Session.IsSound.verify_of_found`, `not_wins_of_exhausted` — what
  is found in a session, and what it says that nothing is;
* `Command.ofResult_ne_noProof` — the texts of other errors;
* `Command.searchSession_eq_ok`, `searchSession_eq_error`, `SearchPrints.cases` — all that a search
  may print;
* `Command.run_verify_eq`, `exists_fault_of_cons` — what a check prints;
* `Command.search_then_verify` — the check of what a search prints.
-/

namespace MemoryHard

open MemoryHard.Bytes

section
variable [HashSuite]

/-! ## What is found for a job -/

/-- A proof that wins in the workspace of a job is accepted, with whatever jobs. -/
theorem Workspace.IsFor.verify_with {w : Workspace} {p : Params} {header : Bytes} {target : Target}
    {proof : Proof} (h : w.IsFor p header) (hp : p.proofFault? = none)
    (hw : (w.prover p).IsWinning target proof) (jobs : UInt64) :
    proof.verify { p with jobs := jobs } header target = .ok () := by
  have hready := h.isReady hp
  have hbits : p.difficultyBits.toNat ≤ digestBits := by
    obtain ⟨-, -, -, -, -, -, -, -, hbits⟩ :=
      Params.fault?_eq_none_iff.1 (Params.proofFault?_eq_none_iff.1 hp).1
    exact hbits
  have hready' : (w.prover { p with jobs := jobs }).IsReady :=
    ⟨Params.proofFault?_with hp jobs hbits, hready.geometry_eq, hready.isOver⟩
  exact Prover.verify_of_isWinning hready' h.challenge_eq (h.isDerived hp)
    ((Prover.isWinning_with jobs p.difficultyBits).2 hw)

namespace Session

variable {s s' : Session} {p : Params} {e : Executor} {machine : Machine} {job : Job}
  {start stop : UInt32} {schedule : List Turn} {result : SearchResult}

section
variable (h : s.IsSound p e machine) (he : e.IsHonest) (hj : s.job = some job)
include h he hj

/-- A search that succeeds has searched the workspace of the job. -/
theorem IsSound.exists_of_searchUnder?
    (hr : s.searchUnder? start stop schedule = some (s', .ok result)) :
    ∃ (w : Workspace) (turns : List Turn), w.IsFor p job.header ∧
      (w.prover p).searchUnder? job.target start stop turns = some (.ok result.proof?) := by
  rcases searchUnder?_inv h he hr with ⟨failure, -, hfailure⟩ |
    ⟨s₁, job', w, outcome, -, -, hjob, -, hfor, hsearch, -, hconclude⟩
  · cases hfailure
  · cases hj.symm.trans hjob
    rw [snd_conclude_eq_ok_iff.1 (congrArg Prod.snd hconclude)] at hsearch
    exact ⟨w, _, hfor, Prover.searchUnder?_of_refusals hsearch⟩

/-- A search that finds a proof finds one for a nonce of its range, and it is accepted. -/
theorem IsSound.verify_of_found {proof : Proof}
    (hr : s.searchUnder? start stop schedule = some (s', .ok (.found proof))) :
    start ≤ proof.nonce ∧ proof.nonce < stop ∧
      ∀ jobs : UInt64, proof.verify { p with jobs := jobs } job.header job.target = .ok () := by
  obtain ⟨w, turns, hfor, hsearch⟩ := h.exists_of_searchUnder? he hj hr
  obtain ⟨hvalid, -⟩ := Prover.searchUnder?_inv hsearch
  have hp := Params.validateForProof_eq_ok_iff.1 hvalid
  obtain ⟨hle, hlt, -, hwin⟩ :=
    Prover.isFirstProof_of_searchUnder? (hfor.isCommitted hvalid) hsearch
  exact ⟨hle, hlt, hfor.verify_with hp hwin⟩

/-- Where a search is exhausted, no nonce of its range wins. -/
theorem IsSound.not_wins_of_exhausted
    (hr : s.searchUnder? start stop schedule = some (s', .ok .exhausted)) :
    ∃ w : Workspace, w.IsFor p job.header ∧
      ¬(w.prover p).HasWinner job.target start.toNat stop.toNat := by
  obtain ⟨w, turns, hfor, hsearch⟩ := h.exists_of_searchUnder? he hj hr
  obtain ⟨hvalid, -⟩ := Prover.searchUnder?_inv hsearch
  refine ⟨w, hfor, fun hwinner => ?_⟩
  have hsome := (Prover.isSome_iff_of_searchUnder? (hfor.isCommitted hvalid) hsearch).2 hwinner
  cases hsome

end

end Session

end

/-! ## Computations that may fail -/

theorem of_bind_eq_ok {ε α β : Type} {x : Except ε α} {f : α → Except ε β} {b : β}
    (h : (x >>= f) = .ok b) : ∃ a, x = .ok a ∧ f a = .ok b := by
  cases x with
  | error e => cases h
  | ok a => exact ⟨a, rfl, h⟩

theorem of_bind_eq_error {ε α β : Type} {x : Except ε α} {f : α → Except ε β} {e : ε}
    (h : (x >>= f) = .error e) : x = .error e ∨ ∃ a, x = .ok a ∧ f a = .error e := by
  cases x with
  | error e' =>
    cases h
    exact .inl rfl
  | ok a => exact .inr ⟨a, rfl, h⟩

/-! ## The texts of errors -/

theorem toString_string (s : String) : toString s = s := rfl

/-- The wording of a failure does not begin as that of a search without a proof. -/
theorem Failure.exists_message (failure : Failure) :
    ∃ c rest, failure.message.toList = c :: rest ∧ c ≠ 'n' := by
  cases failure with
  | allocation what bytes =>
    refine ⟨'c', ("ould not allocate " ++ toString bytes ++ " bytes for " ++ what).toList, ?_,
      by decide⟩
    show (s!"could not allocate {bytes} bytes for {what}" : String).toList = _
    simp [toString_string]
  | thread fault =>
    refine ⟨'w', ("orker thread failure: " ++ fault.message).toList, ?_, by decide⟩
    show (s!"worker thread failure: {fault.message}" : String).toList = _
    simp [toString_string]
  | parameter fault =>
    refine ⟨'i', ("nvalid parameter: " ++ fault.message).toList, ?_, by decide⟩
    show (s!"invalid parameter: {fault.message}" : String).toList = _
    simp [toString_string]
  | cancelled =>
    refine ⟨'j', "ob cancelled".toList, ?_, by decide⟩
    show "job cancelled".toList = _
    simp
  | stopped =>
    refine ⟨'a', " job stopped".toList, ?_, by decide⟩
    show "a job stopped".toList = _
    simp

namespace Command

theorem exists_report (summary : String) (causes : List String) :
    ∃ rest, (report summary causes).toList = "Error: ".toList ++ (summary.toList ++ rest) := by
  match causes with
  | [] => exact ⟨"\n".toList, by simp [report, toString_string]⟩
  | [cause] =>
    exact ⟨("\n\nCaused by:\n    " ++ cause ++ "\n").toList, by simp [report, toString_string]⟩
  | cause :: other :: causes =>
    exact ⟨("\n\nCaused by:\n" ++ numbered 0 (cause :: other :: causes)).toList,
      by simp [report, toString_string]⟩

/-- What a search prints without a proof. -/
def noProof (start stop : UInt32) : Output :=
  .ofResult (.error ⟨s!"no proof in nonces {start}..{stop}", []⟩)

/-- Another error is not taken for a search without a proof. -/
theorem ofResult_ne_noProof {error : Error}
    (h : ∃ c rest, error.summary.toList = c :: rest ∧ c ≠ 'n') (start stop : UInt32) :
    Output.ofResult (.error error) ≠ noProof start stop := by
  intro heq
  obtain ⟨c, rest, hsummary, hc⟩ := h
  have htext := congrArg (fun o : Output => o.stderr.toList) heq
  obtain ⟨more, hreport⟩ := exists_report error.summary error.causes
  obtain ⟨more', hreport'⟩ := exists_report s!"no proof in nonces {start}..{stop}" []
  have hno : (s!"no proof in nonces {start}..{stop}" : String).toList = 'n' ::
      ("o proof in nonces " ++ toString start ++ ".." ++ toString stop).toList := by
    simp [toString_string]
  -- both reports begin alike, up to the first letter of the summary
  change (report error.summary error.causes).toList = (report _ []).toList at htext
  rw [hreport, hreport', hsummary, hno] at htext
  exact hc (List.cons.inj (List.append_cancel_left htext)).1

/-! ## A search -/

variable {header : String} {target : Option String} {start count stop : UInt32} {p : Params}
  {drawn : Bytes} {machine : Machine} {s : Session} {error : Error}
  {result : Except Failure SearchResult}

theorem bytesOf_eq_error {name value : String} (h : bytesOf name value = .error error) :
    ∃ c rest, error.summary.toList = c :: rest ∧ c ≠ 'n' := by
  unfold bytesOf at h
  split at h
  · cases h
  · cases h
    refine ⟨'i', ("nvalid hex string for --" ++ name).toList, ?_, by decide⟩
    simp [toString_string]

theorem orFail_eq_error {α : Type} {computed : Except Failure α}
    (h : orFail computed = .error error) :
    ∃ c rest, error.summary.toList = c :: rest ∧ c ≠ 'n' := by
  cases computed with
  | ok _ => cases h
  | error failure =>
    cases h
    exact failure.exists_message

theorem orFail_eq_ok {α : Type} {computed : Except Failure α} {a : α}
    (h : orFail computed = .ok a) : computed = .ok a := by
  cases computed with
  | ok _ =>
    cases h
    rfl
  | error failure => cases h

theorem searchSession_eq_error
    (h : searchSession (some header) target p drawn machine = .error error) :
    ∃ c rest, error.summary.toList = c :: rest ∧ c ≠ 'n' := by
  rcases of_bind_eq_error h with hheader | ⟨b, -, h⟩
  · exact bytesOf_eq_error hheader
  rcases of_bind_eq_error h with htarget | ⟨t, -, h⟩
  · exact orFail_eq_error htarget
  rcases of_bind_eq_error h with hsession | ⟨s₀, -, h⟩
  · exact orFail_eq_error hsession
  · cases h

/-- The session of a search is a new one with the job for the header and the target. -/
theorem searchSession_eq_ok (h : searchSession (some header) target p drawn machine = .ok s) :
    ∃ b t s₀, bytesOf "header" header = .ok b ∧ targetOf target p = .ok t ∧
      Session.start p (.threaded p.jobs.toNat) machine = .ok s₀ ∧
      s = s₀.load ⟨Hex.text b, b, t⟩ := by
  obtain ⟨b, hheader, h⟩ := of_bind_eq_ok h
  obtain ⟨t, htarget, h⟩ := of_bind_eq_ok h
  obtain ⟨s₀, hsession, h⟩ := of_bind_eq_ok h
  cases h
  exact ⟨b, t, s₀, hheader, htarget, orFail_eq_ok hsession, rfl⟩

/-- A search prints a proof just if it finds one. -/
theorem exists_found_of_code (h : (Output.ofResult (searchOutput start stop result)).code = 0) :
    ∃ proof, result = .ok (.found proof) ∧
      (Output.ofResult (searchOutput start stop result)).stdout = proof.toJson.pretty ++ "\n" := by
  cases result with
  | error failure => cases h
  | ok result =>
    cases result with
    | found proof => exact ⟨proof, rfl, rfl⟩
    | exhausted => cases h

/-- A search says that there is no proof just if it is exhausted. -/
theorem eq_exhausted_of_noProof
    (h : Output.ofResult (searchOutput start stop result) = noProof start stop) :
    result = .ok .exhausted := by
  cases result with
  | error failure =>
    have hmessage : ∃ c rest, (Error.ofFailure failure).summary.toList = c :: rest ∧ c ≠ 'n' :=
      failure.exists_message
    exact absurd h (ofResult_ne_noProof hmessage _ _)
  | ok result =>
    cases result with
    | found proof => cases congrArg Output.code h
    | exhausted => rfl

theorem toNat_stopNonce (start count : UInt32) :
    (stopNonce start count).toNat = min (start.toNat + count.toNat) 4294967295 := by
  have hlt : min (start.toNat + count.toNat) 4294967295 < UInt32.size :=
    Nat.lt_of_le_of_lt (Nat.min_le_right _ _) (by decide)
  exact UInt32.toNat_ofNat_of_lt' hlt

section
variable [HashSuite] {o : Output} {contents : Except Unreadable String}

theorem run_search_eq {header : Option String} (h : searchSession header target p drawn = .ok s)
    (contents : Except Unreadable String) :
    (Command.search header target start count p).run contents drawn =
      .ofResult (searchOutput start (stopNonce start count)
        (s.search start (stopNonce start count)).2) := by
  unfold run runSearch
  dsimp only
  rw [h]
  rfl

/-- What a search may print: what it prints with one worker, or with several under some schedule
and on some machine. -/
def SearchPrints (header : String) (target : Option String) (start count : UInt32) (p : Params)
    (o : Output) : Prop :=
  (∃ contents drawn, (Command.search (some header) target start count p).run contents drawn = o) ∨
    ∃ drawn schedule machine,
      searchUnder? (some header) target start count p drawn schedule machine = some o

/-- All that a search may print: an error before it begins, or what is printed for the result of a
session, which is one of several workers if it is a success. -/
theorem SearchPrints.cases (h : SearchPrints header target start count p o) :
    (∃ error drawn machine, searchSession (some header) target p drawn machine = .error error ∧
      o = .ofResult (.error error)) ∨
    ∃ (b : Bytes) (t : Target) (s : Session) (machine : Machine)
      (result : Except Failure SearchResult),
      bytesOf "header" header = .ok b ∧ targetOf target p = .ok t ∧
      s.IsSound p (.threaded p.jobs.toNat) machine ∧ s.job = some ⟨Hex.text b, b, t⟩ ∧
      o = .ofResult (searchOutput start (stopNonce start count) result) ∧
      ∀ a, result = .ok a → ∃ schedule s',
        s.searchUnder? start (stopNonce start count) schedule = some (s', .ok a) := by
  have hparts {drawn : Bytes} {machine : Machine} {s : Session}
      (hs : searchSession (some header) target p drawn machine = .ok s) :
      ∃ b t, bytesOf "header" header = .ok b ∧ targetOf target p = .ok t ∧
        s.IsSound p (.threaded p.jobs.toNat) machine ∧ s.job = some ⟨Hex.text b, b, t⟩ ∧
        p.validateForProof = .ok () := by
    obtain ⟨b, t, s₀, hheader, htarget, hstart, rfl⟩ := searchSession_eq_ok hs
    exact ⟨b, t, hheader, htarget, (Session.isSound_start hstart).load _, rfl,
      Session.validateForProof_of_start hstart⟩
  rcases h with ⟨contents, drawn, h⟩ | ⟨drawn, schedule, machine, h⟩
  · -- one worker
    cases hs : searchSession (some header) target p drawn with
    | error error =>
      refine .inl ⟨error, drawn, {}, hs, ?_⟩
      rw [← h, run, runSearch, hs]
      rfl
    | ok s =>
      rw [run_search_eq hs] at h
      obtain ⟨b, t, hheader, htarget, hsound, hjob, hvalid⟩ := hparts hs
      refine .inr ⟨b, t, s, _, _, hheader, htarget, hsound, hjob, h.symm, fun a ha => ?_⟩
      obtain ⟨schedule, hsearch⟩ := hsound.exists_searchUnder?
        (Executor.isReliable_threaded _).isHonest hvalid (by rw [ha]; simp)
      exact ⟨schedule, _, hsearch.trans (congrArg some (Prod.ext rfl ha))⟩
  · -- several workers
    unfold searchUnder? at h
    cases hs : searchSession (some header) target p drawn machine with
    | error error =>
      rw [hs] at h
      exact .inl ⟨error, drawn, machine, hs, (Option.some.inj h).symm⟩
    | ok s =>
      rw [hs] at h
      obtain ⟨⟨s', result⟩, hsearch, rfl⟩ := Option.map_eq_some_iff.1 h
      obtain ⟨b, t, hheader, htarget, hsound, hjob, -⟩ := hparts hs
      refine .inr ⟨b, t, s, _, result, hheader, htarget, hsound, hjob, rfl, ?_⟩
      rintro a rfl
      exact ⟨schedule, s', hsearch⟩

/-! ## The check of what was printed -/

/-- What a check prints whose header and target are in order. -/
theorem run_verify_eq {b : Bytes} {t : Target} (hheader : bytesOf "header" header = .ok b)
    (htarget : targetOf target p = .ok t) (file text : String) (drawn : Bytes) :
    (Command.verify file header target p).run (.ok text) drawn =
      .ofResult (match Json.decode Proof.reader text.toList with
        | .error fault => .error ⟨"malformed proof", [fault.report text.toList]⟩
        | .ok proof =>
          match proof.verify p b t with
          | .error rejection => .error ⟨"proof rejected", rejectionCauses rejection⟩
          | .ok _ => .ok { stdout := s!"valid (nonce {proof.nonce})\n" }) := by
  unfold run runVerify
  dsimp only
  rw [hheader, htarget]
  rfl

omit [HashSuite] in
/-- No proof is read from a text that begins neither with a blank nor as an object or a list. -/
theorem exists_fault_of_cons {c : Char} (hblank : Json.isBlank c = false) (hobject : c ≠ '\x7b')
    (hlist : c ≠ '[') (rest : Json.Text) :
    ∃ fault, Json.decode Proof.reader (c :: rest) = .error fault := by
  have hread : Proof.reader (c :: rest) = .error (Json.mismatch "struct Proof" (c :: rest)) := by
    unfold Proof.reader Json.Record.read
    rw [Json.skipBlank_cons hblank]
    split
    · contradiction
    · rename_i heq
      exact absurd (List.cons.inj heq).1 hlist
    · rename_i heq
      exact absurd (List.cons.inj heq).1 hobject
    · rfl
  exact ⟨_, by rw [Json.decode, hread]⟩

/-- A search with its header given in digits, whatever its target, its parameters, its range of
nonces and the turns of its workers.  If it succeeds, a check of what it prints on standard output,
with the same header, target and parameters but for the jobs, says that it is valid; the nonce is
one of those to be tried, which are below `start + count` and never the largest one.  A line of
another kind in front of it makes the check fail.  If the search says that there is no proof, none
of these nonces wins for the job. -/
theorem search_then_verify (h : SearchPrints header target start count p o) :
    (o.code = 0 → ∃ n : UInt32, start ≤ n ∧ n.toNat < start.toNat + count.toNat ∧
      n.toNat < 4294967295 ∧ ∀ (file : String) (jobs : UInt64) (drawn : Bytes),
        let check := Command.verify file header target { p with jobs := jobs }
        check.run (.ok o.stdout) drawn = { stdout := s!"valid (nonce {n})\n" } ∧
        ∀ (line : String) (c : Char) (rest : List Char), line.toList = c :: rest →
          Json.isBlank c = false → c ≠ '\x7b' → c ≠ '[' →
          ∃ cause, check.run (.ok (line ++ o.stdout)) drawn =
            { code := 1, stderr := report "malformed proof" [cause] }) ∧
    (o = noProof start (stopNonce start count) →
      ∃ (b : Bytes) (t : Target) (w : Workspace), bytesOf "header" header = .ok b ∧
        targetOf target p = .ok t ∧ w.IsFor p b ∧
        ∀ n : Nat, start.toNat ≤ n → n < start.toNat + count.toNat → n < 4294967295 →
          ¬(w.prover p).Wins t (.ofNat n)) := by
  have he := (Executor.isReliable_threaded p.jobs.toNat).isHonest
  rcases h.cases with ⟨error, drawn, machine, hs, rfl⟩ |
    ⟨b, t, s, machine, result, hheader, htarget, hsound, hjob, rfl, hsearch⟩
  · -- the search does not begin
    refine ⟨(fun hcode => nomatch hcode), fun hno => ?_⟩
    exact absurd hno (ofResult_ne_noProof (searchSession_eq_error hs) _ _)
  constructor
  · intro hcode
    obtain ⟨proof, rfl, hstdout⟩ := exists_found_of_code hcode
    obtain ⟨schedule, s', hfound⟩ := hsearch _ rfl
    obtain ⟨hle, hlt, hproof⟩ := hsound.verify_of_found he hjob hfound
    have hstop := UInt32.lt_iff_toNat_lt.1 hlt
    rw [toNat_stopNonce] at hstop
    refine ⟨proof.nonce, hle, by omega, by omega, fun file jobs drawn => ?_⟩
    intro check
    rw [hstdout]
    have htarget' : targetOf target { p with jobs := jobs } = .ok t := htarget
    constructor
    · rw [run_verify_eq hheader htarget', proof.decode_pretty]
      dsimp only
      rw [hproof jobs]
      rfl
    · -- the first character already shows that the text is no proof
      intro line c rest hline hblank hobject hlist
      obtain ⟨fault, hfault⟩ := exists_fault_of_cons hblank hobject hlist
        (rest ++ (proof.toJson.pretty ++ "\n").toList)
      rw [run_verify_eq hheader htarget', String.toList_append, hline, List.cons_append, hfault]
      exact ⟨_, rfl⟩
  · intro hno
    have hexhausted := eq_exhausted_of_noProof hno
    obtain ⟨schedule, s', hlost⟩ := hsearch _ hexhausted
    obtain ⟨w, hfor, hnone⟩ := hsound.not_wins_of_exhausted he hjob hlost
    refine ⟨b, t, w, hheader, htarget, hfor, fun n hn hcount hmax hwins => hnone ⟨n, hn, ?_, hwins⟩⟩
    rw [toNat_stopNonce]
    omega

end

/-- One nonce that wins, as every nonce does. -/
theorem search_then_verify_sixteen :
    let p : Params := { Params.sixteen 1 with difficultyBits := 0 }
    ∃ o : Output, SearchPrints "010203" none 0 1 p o ∧ o.code = 0 ∧
      (Command.verify "proof.json" "010203" none { p with jobs := 4 }).run (.ok o.stdout) [] =
        { stdout := s!"valid (nonce {(0 : UInt32)})\n" } := by
  intro p
  have hfault : p.proofFault? = none := by decide
  have hvalid := Params.validateForProof_eq_ok_iff.2 hfault
  let job : Job := ⟨Hex.text [1, 2, 3], [1, 2, 3], .easiest⟩
  let s : Session := ({ params := p, executor := .threaded 1 } : Session).load job
  have hsession : searchSession (some "010203") none p [] = .ok s := by
    have hheader : bytesOf "header" "010203" = .ok [1, 2, 3] := rfl
    have htarget : targetOf none p = .ok .easiest := by
      show orFail (Target.ofDifficulty 0) = _
      rw [Target.ofDifficulty, if_neg (by decide)]
      exact congrArg (fun b => Except.ok (Target.mk b)) (FixedBytes.ext (by decide))
    unfold searchSession headerOf Session.threaded Session.start
    dsimp only
    rw [hheader, htarget, hvalid]
    rfl
  have he : s.executor.IsReliable := Executor.isReliable_threaded 1
  obtain ⟨w, calls, hfor, hprepare⟩ :=
    Session.exists_prepare he rfl (Params.fault?_of_validateForProof hvalid) rfl rfl
      (rfl : s.job = some job)
  obtain ⟨proof, hproof⟩ := (hfor.isReady hfault).exists_search
    (show p.walkFits = true by decide) (show (0 : UInt32) < 1 by decide)
  have hsearch : (s.search 0 (stopNonce 0 1)).2 = .ok (.found proof) := by
    unfold Session.search
    rw [hprepare]
    exact Session.snd_conclude_eq_ok_iff.2 hproof
  let o : Output := .ofResult (searchOutput 0 (stopNonce 0 1) (.ok (.found proof)))
  have hprints : SearchPrints "010203" none 0 1 p o := by
    refine .inl ⟨.ok "", [], ?_⟩
    rw [run_search_eq hsession, hsearch]
  obtain ⟨n, -, hcount, -, hcheck⟩ := (search_then_verify hprints).1 rfl
  have hzero : n = 0 := UInt32.toNat_inj.1 (Nat.lt_one_iff.1 hcount)
  exact ⟨o, hprints, rfl, hzero ▸ (hcheck "proof.json" 4 []).1⟩

end Command

end MemoryHard
