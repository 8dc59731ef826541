import MemoryHard.Bytes

/-!
# MemoryHard.Json.Fault — what is wrong with a JSON text

A fault has a cause and a place.  The place is given by how many bytes of the text are left
there.  A cause that is found in a value, and not in its text, is `pending` until the object or
list around it has been left.

* `Cause` — the causes, with `Cause.message` for their wording;
* `Fault` — a cause with its place;
* `Fault.report` — the wording with line and column.
-/

namespace MemoryHard.Json

open MemoryHard.Bytes

/-- What is left of a text. -/
abbrev Text := List Char

/-- What is wrong. -/
inductive Cause where
  | endInList
  | endInObject
  | endInString
  | endInValue
  | noColon
  | noListEnd
  | noObjectEnd
  /-- The word is neither `null` nor `true` nor `false`. -/
  | unknownWord
  | noValue
  | badEscape
  | badNumber
  | hugeNumber
  | controlCharacter
  | keyNotString
  /-- Half of a pair of code units stands alone. -/
  | loneSurrogate
  /-- Half of a pair of code units is not followed by the other. -/
  | endOfEscape
  | trailingComma
  | trailingCharacters
  /-- The value is of another kind. -/
  | wrongKind (found expected : String)
  /-- The value is of the right kind but out of range. -/
  | wrongValue (found expected : String)
  | wrongLength (found : Nat) (expected : String)
  | missingField (name : String)
  | duplicateField (name : String)
  /-- A string does not read as what it should be. -/
  | content (reason : String)
deriving DecidableEq

/-- The wording of a cause. -/
def Cause.message : Cause → String
  | .endInList => "EOF while parsing a list"
  | .endInObject => "EOF while parsing an object"
  | .endInString => "EOF while parsing a string"
  | .endInValue => "EOF while parsing a value"
  | .noColon => "expected `:`"
  | .noListEnd => "expected `,` or `]`"
  | .noObjectEnd => "expected `,` or `\x7d`"
  | .unknownWord => "expected ident"
  | .noValue => "expected value"
  | .badEscape => "invalid escape"
  | .badNumber => "invalid number"
  | .hugeNumber => "number out of range"
  | .controlCharacter =>
    "control character (\\u0000-\\u001F) found while parsing a string"
  | .keyNotString => "key must be a string"
  | .loneSurrogate => "lone leading surrogate in hex escape"
  | .endOfEscape => "unexpected end of hex escape"
  | .trailingComma => "trailing comma"
  | .trailingCharacters => "trailing characters"
  | .wrongKind found expected => s!"invalid type: {found}, expected {expected}"
  | .wrongValue found expected => s!"invalid value: {found}, expected {expected}"
  | .wrongLength found expected => s!"invalid length {found}, expected {expected}"
  | .missingField name => s!"missing field `{name}`"
  | .duplicateField name => s!"duplicate field `{name}`"
  | .content reason => reason

/-- A cause with its place. -/
inductive Fault where
  /-- The cause lies where so many bytes are left. -/
  | located (cause : Cause) (left : Nat)
  /-- The cause is found before `rest`, and its place is not known yet. -/
  | pending (cause : Cause) (rest : Text)
deriving DecidableEq

/-- The number of bytes of a text. -/
def byteLength (t : Text) : Nat := (utf8 t).length

/-- What a reader gives: a value and the rest of the text. -/
abbrev Result (α : Type) := Except Fault (α × Text)

/-- A fault in front of `rest`. -/
def failAt {α : Type} (cause : Cause) (rest : Text) : Except Fault α :=
  .error (.located cause (byteLength rest))

/-- A fault behind the first byte of `rest`. -/
def failPast {α : Type} (cause : Cause) (rest : Text) : Except Fault α :=
  .error (.located cause (byteLength rest - 1))

/-- A fault whose place is not known yet. -/
def failLater {α : Type} (cause : Cause) (rest : Text) : Except Fault α :=
  .error (.pending cause rest)

/-- The line and the column after the given bytes: lines are counted from one, and the column is
the number of bytes since the last line break. -/
def lineAndColumn (b : Bytes) : Nat × Nat :=
  b.foldl (fun (p : Nat × Nat) (x : UInt8) =>
    if x = 10 then (p.1 + 1, 0) else (p.1, p.2 + 1)) (1, 0)

/-- The wording of a fault in a text, with its place. -/
def Fault.report (text : Text) : Fault → String
  | .located cause left =>
    let bytes := utf8 text
    let (line, column) := lineAndColumn (bytes.take (bytes.length - left))
    s!"{cause.message} at line {line} column {column}"
  | .pending cause _ => cause.message

end MemoryHard.Json
