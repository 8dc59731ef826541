import MemoryHard.Session

/-!
# MemoryHard.Session.History — what may have happened in a session

* `Session.Action` — what may be done in a session, with `Session.act` for its effect;
* `Session.after` — the session that some actions lead to.
-/

namespace MemoryHard

namespace Session

/-- What may be done in a session. -/
inductive Action where
  | load (job : Job)
  | prepare
  | search (start stop : UInt32)
  | verify (proof : Proof)
  | cancel
  | resume
deriving DecidableEq

variable [HashSuite]

/-- The session after an action. -/
def act (s : Session) : Action → Session
  | .load job => s.load job
  | .prepare => s.prepare.1
  | .search start stop => (s.search start stop).1
  | .verify _ => s
  | .cancel => s.cancel
  | .resume => s.resume

/-- The session after some actions. -/
def after (s : Session) (actions : List Action) : Session := actions.foldl act s

end Session

end MemoryHard
