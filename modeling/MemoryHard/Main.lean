import MemoryHard.Command
import MemoryHard.Digest.Standard

/-!
# MemoryHard.Main — the program

Reads the file that a command needs, draws a header at random in case it is missing, runs the
command and prints what it gives.
-/

namespace MemoryHard

/-- Why a file cannot be read, by the error of the attempt. -/
def readFault (error : IO.Error) : Unreadable :=
  let number : Option UInt32 :=
    match error with
    | .noFileOrDirectory _ number _ => some number
    | .permissionDenied _ number _ => some number
    | .inappropriateType _ number _ => some number
    | .invalidArgument _ number _ => some number
    | _ => none
  (number.bind fun n => Unreadable.ofNumber? n.toNat).getD .notText

/-- The text of a file, or why it cannot be read. -/
def readText (file : String) : IO (Except Unreadable String) := do
  try
    return .ok (← IO.FS.readFile file)
  catch error =>
    return .error (readFault error)

/-- What is shown where the arguments ask for nothing. -/
def usage : String :=
  "usage: hash --password HEX --salt HEX [options]\n" ++
    "       search [--header HEX] [--target HEX] [--start N] [--count N] [options]\n" ++
    "       verify --proof FILE --header HEX [--target HEX] [options]\n"

end MemoryHard

open MemoryHard

/-- Runs the command that the arguments ask for. -/
def main (args : List String) : IO UInt32 := do
  match Command.parse args with
  | none =>
    IO.eprint usage
    return 2
  | some command =>
    let contents ← match command.file? with
      | some file => readText file
      | none => pure (.ok "")
    let drawn ← IO.getRandomBytes 80
    let output := command.run contents drawn.toList
    IO.print output.stdout
    IO.eprint output.stderr
    return UInt32.ofNat output.code
