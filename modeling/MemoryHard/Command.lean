import MemoryHard.Command.Options
import MemoryHard.Command.Unreadable
import MemoryHard.Proof.Format
import MemoryHard.Session

/-!
# MemoryHard.Command — the command line

There are three commands: `hash` prints the tag of a password and a salt, `search` looks for a
proof and prints it, and `verify` checks a proof in a file.

* `Command.parse` — the command that some arguments ask for;
* `Command.run` — what it prints, and its exit code;
* `report` — the text of an error and its causes.
-/

namespace MemoryHard

open MemoryHard.Bytes

/-- What the command line asks for. -/
inductive Command where
  /-- The tag of a password and a salt, both in hexadecimal digits. -/
  | hash (password salt : String) (params : Params)
  /-- A proof for a header among the nonces from `start` on. -/
  | search (header target : Option String) (start count : UInt32) (params : Params)
  /-- The check of the proof in a file. -/
  | verify (file header : String) (target : Option String) (params : Params)
deriving DecidableEq

namespace Command

/-- What a command prints, and its exit code. -/
structure Output where
  code : Nat := 0
  stdout : String := ""
  stderr : String := ""
deriving DecidableEq

/-! ## Arguments -/

/-- The options that set parameters. -/
def paramNames : List String :=
  ["lanes", "memory-cost", "passes", "tag-length", "merkle-node-size", "search-length",
    "difficulty-bits", "jobs"]

/-- The parameters that options set. -/
def params? (options : Options) : Option Params := do
  let usual : Params := {}
  return {
    lanes := ← valueOr options "lanes" usual.lanes word32?
    memoryCost := ← valueOr options "memory-cost" usual.memoryCost word32?
    passes := ← valueOr options "passes" usual.passes word32?
    tagLength := ← valueOr options "tag-length" usual.tagLength word32?
    nodeSize := ← valueOr options "merkle-node-size" usual.nodeSize word64?
    searchLength := ← valueOr options "search-length" usual.searchLength word64?
    difficultyBits := ← valueOr options "difficulty-bits" usual.difficultyBits word64?
    jobs := ← valueOr options "jobs" usual.jobs word64? }

/-- The name of a file, which must not be empty. -/
def fileName? (s : String) : Option String := if s.isEmpty then none else some s

/-- The command that some arguments ask for, if they ask for one. -/
def parse : List String → Option Command
  | "hash" :: args => do
    let options ← collect ("password" :: "salt" :: paramNames) [] args
    return .hash (← options.lookup "password") (← options.lookup "salt") (← params? options)
  | "search" :: args => do
    let options ← collect ("header" :: "target" :: "start" :: "count" :: paramNames) [] args
    return .search (options.lookup "header") (options.lookup "target")
      (← valueOr options "start" 0 word32?) (← valueOr options "count" 0xffffffff word32?)
      (← params? options)
  | "verify" :: args => do
    let options ← collect ("proof" :: "header" :: "target" :: paramNames) [] args
    return .verify (← (options.lookup "proof").bind fileName?) (← options.lookup "header")
      (options.lookup "target") (← params? options)
  | _ => none

/-- The file that a command reads. -/
def file? : Command → Option String
  | .verify file _ _ _ => some file
  | _ => none

/-! ## Errors -/

/-- The lines of several causes, numbered from `n` on. -/
def numbered (n : Nat) : List String → String
  | [] => ""
  | cause :: rest => s!"    {n}: {cause}\n" ++ numbered (n + 1) rest

/-- The text of an error with its causes, the nearest first. -/
def report (error : String) : List String → String
  | [] => s!"Error: {error}\n"
  | [cause] => s!"Error: {error}\n\nCaused by:\n    {cause}\n"
  | causes => s!"Error: {error}\n\nCaused by:\n{numbered 0 causes}"

/-- An error: what went wrong, and why. -/
structure Error where
  summary : String
  /-- Why, the nearest cause first. -/
  causes : List String := []

/-- A failure as an error of its own. -/
def Error.ofFailure (failure : Failure) : Error := ⟨failure.message, []⟩

/-- The causes of a rejection. -/
def rejectionCauses (r : Rejection) : List String :=
  r.message :: (r.cause?.map Failure.message).toList

/-- What is printed for a result. -/
def Output.ofResult : Except Error Output → Output
  | .ok output => output
  | .error error => { code := 1, stderr := report error.summary error.causes }

/-! ## Commands -/

/-- The bytes that an option gives in hexadecimal digits. -/
def bytesOf (name value : String) : Except Error Bytes :=
  match Hex.decode value.toList with
  | .ok b => .ok b
  | .error fault => .error ⟨s!"invalid hex string for --{name}", [fault.message]⟩

/-- The result of a computation that may fail. -/
def orFail {α : Type} : Except Failure α → Except Error α
  | .ok a => .ok a
  | .error failure => .error (.ofFailure failure)

/-- The target that is given, or the one for the difficulty among the parameters. -/
def targetOf (target : Option String) (p : Params) : Except Error Target :=
  orFail <|
    match target with
    | some text => Target.ofHex text
    | none => Target.ofDifficulty p.difficultyBits.toNat

/-- The nonce before which a search ends; the largest nonce is never tried. -/
def stopNonce (start count : UInt32) : UInt32 :=
  UInt32.ofNat (min (start.toNat + count.toNat) (UInt32.size - 1))

/-- The header that is given, or one that was drawn before. -/
def headerOf (header : Option String) (drawn : Bytes) : Except Error Bytes :=
  match header with
  | some value => bytesOf "header" value
  | none => .ok drawn

/-- The session of a search, with its job. -/
def searchSession (header target : Option String) (p : Params) (drawn : Bytes)
    (machine : Machine := {}) : Except Error Session := do
  let header ← headerOf header drawn
  let target ← targetOf target p
  let session ← orFail (Session.threaded p machine)
  return session.load ⟨Hex.text header, header, target⟩

/-- What is printed for the result of a search. -/
def searchOutput (start stop : UInt32) (result : Except Failure SearchResult) :
    Except Error Output := do
  match ← orFail result with
  | .found proof =>
    return { stdout := proof.toJson.pretty ++ "\n", stderr := proof.outline ++ "\n" }
  | .exhausted => throw ⟨s!"no proof in nonces {start}..{stop}", []⟩

variable [HashSuite]

/-- The tag of a password and a salt. -/
def runHash (password salt : String) (p : Params) : Except Error Output := do
  let password ← bytesOf "password" password
  let salt ← bytesOf "salt" salt
  let memory ← orFail (Memory.zeroed p none)
  let fill : Fill := { params := p, executor := .threaded p.jobs.toNat, watches := false }
  let (r, outcome) := fill.run { memory := memory } { password := password, salt := salt }
  match outcome with
  | .error failure => throw ⟨"memory fill failed", [failure.message]⟩
  | .ok _ => return { stdout := Hex.text (r.memory.tag p.tagLength.toNat) ++ "\n" }

/-- The search for a proof.  Without a header one that was drawn before is taken. -/
def runSearch (header target : Option String) (start count : UInt32) (p : Params)
    (drawn : Bytes) : Except Error Output := do
  let session ← searchSession header target p drawn
  let stop := stopNonce start count
  searchOutput start stop (session.search start stop).2

/-- The check of the proof in a file, of which the text is given or why it cannot be read. -/
def runVerify (file header : String) (target : Option String) (p : Params)
    (contents : Except Unreadable String) : Except Error Output := do
  let header ← bytesOf "header" header
  let target ← targetOf target p
  match contents with
  | .error reason => throw ⟨s!"could not read {file}", [reason.message]⟩
  | .ok text =>
    match Json.decode Proof.reader text.toList with
    | .error fault => throw ⟨"malformed proof", [fault.report text.toList]⟩
    | .ok proof =>
      match proof.verify p header target with
      | .error rejection => throw ⟨"proof rejected", rejectionCauses rejection⟩
      | .ok _ => return { stdout := s!"valid (nonce {proof.nonce})\n" }

/-- What a command prints, given the contents of the file it reads and a header drawn at
random. -/
def run (c : Command) (contents : Except Unreadable String) (drawn : Bytes) : Output :=
  .ofResult <|
    match c with
    | .hash password salt p => runHash password salt p
    | .search header target start count p => runSearch header target start count p drawn
    | .verify file header target p => runVerify file header target p contents

end Command

end MemoryHard
