import MemoryHard.Memory.Fill
import MemoryHard.Proof.Search
import MemoryHard.Proof.Verify

/-!
# MemoryHard.Session — jobs one after the other

A session takes a job, fills the memory for it once, and searches one range of nonces after the
other.  Another job, and every failure, drops the memory; a search that stops without a result
leaves all as it stands.

* `Session.start` — a session for parameters that can be proved;
* `Session.load` — the next job; the same job with another target keeps its memory;
* `Session.prepare`, `Session.search`, `Session.verify` — what is done for a job.
-/

namespace MemoryHard

open MemoryHard.Bytes

/-- A job. -/
structure Job where
  /-- Its name; another name is another job. -/
  id : String
  /-- The header that the memory depends on. -/
  header : Bytes
  target : Target
deriving DecidableEq

/-- How far the job at hand has come. -/
inductive Phase where
  | idle
  /-- A job is loaded, but there is no memory for it. -/
  | loaded
  /-- Memory and tree are there. -/
  | prepared
  /-- A range of nonces is searched. -/
  | searching
  /-- The last range had a proof. -/
  | found
  /-- The last range had none. -/
  | exhausted
deriving DecidableEq

/-- The written form of a phase. -/
def Phase.text : Phase → String
  | .idle => "Idle"
  | .loaded => "HeaderLoaded"
  | .prepared => "MemoryFilled"
  | .searching => "Searching"
  | .found => "Found"
  | .exhausted => "Exhausted"

/-- What a search in a range of nonces comes to. -/
inductive SearchResult where
  | found (proof : Proof)
  | exhausted
deriving DecidableEq

/-- What is kept for a job. -/
structure Workspace where
  challenge : Challenge
  memory : Memory
  tree : HashTree

/-- What a search in a workspace runs with. -/
def Workspace.prover (w : Workspace) (p : Params) : Prover := ⟨p, w.challenge, w.memory, w.tree⟩

/-- A session. -/
structure Session where
  params : Params
  /-- Who fills the memory. -/
  executor : Executor
  /-- How many calls the executor has had. -/
  calls : Nat := 0
  /-- What the session runs on. -/
  machine : Machine := {}
  /-- How many calls have asked the machine for something. -/
  requests : Nat := 0
  /-- Whether the work at hand is called off. -/
  cancelled : Bool := false
  /-- How far the job has come. -/
  phase : Phase := .idle
  job : Option Job := none
  /-- What is kept for it. -/
  workspace : Option Workspace := none

namespace Session

/-- A session without a job. -/
def start (p : Params) (e : Executor) (machine : Machine := {}) : Except Failure Session :=
  match p.validateForProof with
  | .error failure => .error failure
  | .ok _ => .ok { params := p, executor := e, machine := machine }

/-- A session that fills memory on as many workers as the parameters say. -/
def threaded (p : Params) (machine : Machine := {}) : Except Failure Session :=
  start p (.threaded p.jobs.toNat) machine

/-- What is refused to the next call. -/
def refusals (s : Session) : Refusals := s.machine.refusals s.requests

/-- Calls off the work at hand. -/
def cancel (s : Session) : Session := { s with cancelled := true }

/-- Takes back the calling off. -/
def resume (s : Session) : Session := { s with cancelled := false }

/-- The root of the tree, if there is one. -/
def root? (s : Session) : Option Bytes := s.workspace.map (·.tree.root)

/-- Whether two jobs differ in nothing but the target. -/
def sameWork (a b : Job) : Bool := a.id = b.id && a.header = b.header

/-- Loads a job.  The memory is kept if the job is the same but for its target. -/
def load (s : Session) (job : Job) : Session :=
  let keep := s.job.any (sameWork · job)
  let workspace := if keep then s.workspace else none
  { s with
    workspace := workspace
    cancelled := false
    job := some job
    phase := if workspace.isSome then .prepared else .loaded }

/-- Drops the memory; the job stays. -/
def tearDown (s : Session) : Session :=
  { s with workspace := none, phase := if s.job.isSome then .loaded else .idle }

variable [HashSuite]

/-- Fills the memory of a job and builds its tree. -/
def build (s : Session) (job : Job) : Session × Except Failure Workspace :=
  let challenge := Challenge.ofHeader job.header
  let refusals := s.refusals
  let s := { s with requests := s.requests + 1 }
  match Memory.zeroed s.params (some challenge.jobWords) refusals with
  | .error failure => (s, .error failure)
  | .ok memory =>
    let fill : Fill := { params := s.params, executor := s.executor }
    let (r, outcome) := fill.run
      { memory := memory, calls := s.calls, cancelled := s.cancelled } (.ofHeader job.header)
    let s := { s with calls := r.calls, cancelled := r.cancelled }
    match outcome with
    | .error failure => (s, .error failure)
    | .ok _ =>
      match HashTree.build s.params challenge r.memory refusals with
      | .error failure => (s, .error failure)
      | .ok tree => (s, .ok ⟨challenge, r.memory, tree⟩)

/-- Fills memory and builds the tree, unless they are there. -/
def prepare (s : Session) : Session × Except Failure Unit :=
  if s.workspace.isSome then (s, .ok ())
  else
    match s.job with
    | none => (s, .error (.parameter .noJob))
    | some job =>
      match s.build job with
      | (s, .error failure) => (s.tearDown, .error failure)
      | (s, .ok workspace) => ({ s with workspace := some workspace, phase := .prepared }, .ok ())

/-- What a search leaves behind that comes to the given outcome.  A search that stops leaves all
as it stands. -/
def conclude (s : Session) :
    Except Failure (Option Proof) → Session × Except Failure SearchResult
  | .ok (some proof) => ({ s with phase := .found }, .ok (.found proof))
  | .ok none => ({ s with phase := .exhausted }, .ok .exhausted)
  | .error .stopped => (s, .error .stopped)
  | .error failure => (s.tearDown, .error failure)

/-- Searches a range of nonces, after preparing the memory. -/
def search (s : Session) (start stop : UInt32) : Session × Except Failure SearchResult :=
  match s.prepare with
  | (s, .error failure) => (s, .error failure)
  | (s, .ok _) =>
    let refusals := s.refusals
    let s := { s with phase := .searching, requests := s.requests + 1 }
    match s.job, s.workspace with
    | some job, some w =>
      s.conclude ((w.prover s.params).search job.target start stop s.cancelled refusals)
    | _, _ => (s.tearDown, .error (.parameter .noJob))

/-- Checks a proof for the job at hand. -/
def verify (s : Session) (proof : Proof) : Except Rejection Unit :=
  match s.job with
  | none => .error (.params (.parameter .noJob))
  | some job => proof.verify s.params job.header job.target

end Session

end MemoryHard
