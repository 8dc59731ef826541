/-!
# MemoryHard.Command.Unreadable — why a file cannot be read

A path is followed from one directory to the next until it leads to a file, and the file must hold
text.  Each way to fail has a wording; those that come from the system have a number too.

* `Unreadable` — the ways, with `Unreadable.message` for their wording;
* `Unreadable.ofNumber?` — the way that a number stands for.
-/

namespace MemoryHard

/-- Why a file cannot be read. -/
inductive Unreadable where
  | missing
  | denied
  /-- The path goes on after something that is not a directory. -/
  | notADirectory
  | isADirectory
  | nameTooLong
  | notText
deriving DecidableEq, Repr

namespace Unreadable

/-- The system's wording and number, if the system is where the reason comes from. -/
def ofSystem : Unreadable → Option (String × Nat)
  | .missing => some ("No such file or directory", 2)
  | .denied => some ("Permission denied", 13)
  | .notADirectory => some ("Not a directory", 20)
  | .isADirectory => some ("Is a directory", 21)
  | .nameTooLong => some ("File name too long", 36)
  | .notText => none

/-- The wording of a reason. -/
def message (u : Unreadable) : String :=
  match u.ofSystem with
  | some (text, number) => s!"{text} (os error {number})"
  | none => "stream did not contain valid UTF-8"

/-- The reason that has a number. -/
def ofNumber? (number : Nat) : Option Unreadable :=
  [missing, denied, notADirectory, isADirectory, nameTooLong].find? fun u =>
    u.ofSystem.map Prod.snd == some number

end Unreadable

end MemoryHard
