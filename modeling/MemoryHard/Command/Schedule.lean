import MemoryHard.Command
import MemoryHard.Session.Schedule

/-!
# MemoryHard.Command.Schedule — the search command with several workers

Several workers may find another proof than a single one does, so what the search command prints
depends on how their turns fall.

* `Command.searchUnder?` — the search command whose workers take the turns of a schedule.
-/

namespace MemoryHard

open MemoryHard.Bytes

variable [HashSuite]

/-- What a search prints whose workers take the turns of a schedule, if it returns. -/
def Command.searchUnder? (header target : Option String) (start count : UInt32) (p : Params)
    (drawn : Bytes) (schedule : List Turn) (machine : Machine := {}) : Option Output :=
  match searchSession header target p drawn machine with
  | .error error => some (.ofResult (.error error))
  | .ok session =>
    let stop := stopNonce start count
    (session.searchUnder? start stop schedule).map fun call =>
      .ofResult (searchOutput start stop call.2)

end MemoryHard
