import MemoryHard.Proof.Race
import MemoryHard.Session.History

/-!
# MemoryHard.Session.Schedule — sessions whose searches are shared by workers

A search in a session may be shared by several workers, and it may be called off at any time from
outside.  What it comes to depends on how their turns fall, so each call of a history comes with a
schedule; only a search looks at it.

* `Session.searchUnder?` — a search whose workers take given turns;
* `Session.act?`, `Session.follow?` — the session after a call, and after a history of calls.
-/

namespace MemoryHard

variable [HashSuite]

namespace Session

/-- A call, if it returns: one that stops takes its caller along. -/
def returned {α : Type} (call : Session × Except Failure α) :
    Option (Session × Except Failure α) :=
  match call.2 with
  | .error .stopped => none
  | _ => some call

/-- A search in a range of nonces whose workers take the turns of a schedule, if it returns. -/
def searchUnder? (s : Session) (start stop : UInt32) (schedule : List Turn) :
    Option (Session × Except Failure SearchResult) :=
  match s.prepare with
  | (s, .error failure) => returned (s, .error failure)
  | (s, .ok _) =>
    let turns := turnsFrom s.cancelled schedule
    let refusals := s.refusals
    let s := { s with
      phase := .searching, cancelled := turns.contains .cancel, requests := s.requests + 1 }
    match s.job, s.workspace with
    | some job, some w =>
      ((w.prover s.params).searchUnder? job.target start stop turns refusals).bind fun outcome =>
        returned (s.conclude outcome)
    | _, _ => some (s.tearDown, .error (.parameter .noJob))

/-- The session after a call, if it returns. -/
def act? (s : Session) (action : Action) (schedule : List Turn) : Option Session :=
  match action with
  | .prepare => (returned s.prepare).map Prod.fst
  | .search start stop => (s.searchUnder? start stop schedule).map Prod.fst
  | action => some (s.act action)

/-- The session after some calls, if all of them return. -/
def follow? (s : Session) : (history : List (Action × List Turn)) → Option Session
  | [] => some s
  | (action, schedule) :: history => (s.act? action schedule).bind fun s => s.follow? history

end Session

end MemoryHard
