import MemoryHard.Bytes.Base64
import MemoryHard.Bytes.Hex
import MemoryHard.Json.Skip
import MemoryHard.Text.Quoted

/-!
# MemoryHard.Json.Reader — values of a known form

A reader takes a value of one form from the front of a text.  An object may also be given as the
list of its fields in order; fields that are not known are read over.

* `readNat`, `readString`, `readBase64`, `readHex` — numbers and strings;
* `readOption`, `readList` — values that may be `null`, and lists;
* `Record`, `Record.read` — objects with known fields;
* `decode` — a text that holds one value and nothing else.
-/

namespace MemoryHard.Json

open MemoryHard.Bytes

/-- A reader for values of one form. -/
abbrev Reader (α : Type) := Text → Result α

/-- The result of a reader with another value. -/
def mapResult {α β : Type} (f : α → β) : Result α → Result β
  | .ok (a, rest) => .ok (f a, rest)
  | .error fault => .error fault

/-- A fault that is located where the text goes on. -/
def settle {α : Type} : Result α → Result α
  | .error (.pending cause rest) => failAt cause rest
  | result => result

/-! ## Values of another form -/

/-- The fault of a value that is not of the form expected; the text has no blanks in front. -/
def mismatch (expected : String) (t : Text) : Fault :=
  let found (what : String) (rest : Except Fault Text) : Fault :=
    match rest with
    | .ok rest => .located (.wrongKind what expected) (byteLength rest)
    | .error fault => fault
  let number (result : Result Number) : Fault :=
    match result with
    | .ok (n, rest) => .located (.wrongKind n.text expected) (byteLength rest)
    | .error fault => fault
  match t with
  | 'n' :: rest => found "null" (expectWord ['u', 'l', 'l'] rest)
  | 't' :: rest => found "boolean `true`" (expectWord ['r', 'u', 'e'] rest)
  | 'f' :: rest => found "boolean `false`" (expectWord ['a', 'l', 's', 'e'] rest)
  | '[' :: _ => found "sequence" (.ok t)
  | '\x7b' :: _ => found "map" (.ok t)
  | '-' :: rest => number (readNumber false rest)
  | '"' :: rest =>
    match readString rest with
    | .ok (s, rest) => found (s!"string {Text.quoted (String.ofList s)}") (.ok rest)
    | .error fault => fault
  | c :: _ =>
    if c.isDigit then number (readNumber true t) else .located .noValue (byteLength t - 1)
  | [] => .located .noValue 0

/-! ## Numbers and strings -/

/-- A natural number up to `limit`; `name` is what it is called. -/
def readNat (limit : Nat) (name : String) : Reader Nat := fun t =>
  let check (result : Result Number) : Result Nat :=
    match result with
    | .error fault => .error fault
    | .ok (.natural n, rest) =>
      if n ≤ limit then .ok (n, rest)
      else failAt (.wrongValue (Number.natural n).text name) rest
    | .ok (.negative n, rest) => failAt (.wrongValue (Number.negative n).text name) rest
    | .ok (.float x, rest) => failAt (.wrongKind (Number.float x).text name) rest
  match skipBlank t with
  | [] => failPast .endInValue []
  | '-' :: rest => check (readNumber false rest)
  | c :: rest =>
    if c.isDigit then check (readNumber true (c :: rest)) else .error (mismatch name (c :: rest))

/-- A number of 32 bits. -/
def readWord32 : Reader UInt32 := fun t =>
  mapResult UInt32.ofNat (readNat (UInt32.size - 1) "u32" t)

/-- A number of 64 bits. -/
def readWord64 : Reader UInt64 := fun t =>
  mapResult UInt64.ofNat (readNat (UInt64.size - 1) "usize" t)

/-- A string; `name` is what it is called. -/
def readText (name : String) : Reader (List Char) := fun t =>
  match skipBlank t with
  | [] => failPast .endInValue []
  | '"' :: rest => readString rest
  | rest => .error (mismatch name rest)

/-- The cause of bytes whose number is not the one wanted. -/
def wrongByteCount (n : Nat) : Cause :=
  .content s!"Can't convert a Byte Vector of length {n} to the output type."

/-- Bytes in base64, as far as `convert` takes them. -/
def readBase64With {α : Type} (convert : Bytes → Option α) : Reader α := fun t =>
  settle <|
    match readText "a base64 encoded string" t with
    | .error fault => .error fault
    | .ok (s, rest) =>
      match Base64.decode s with
      | .error fault => failLater (.content fault.message) rest
      | .ok bytes =>
        match convert bytes with
        | some a => .ok (a, rest)
        | none => failLater (wrongByteCount bytes.length) rest

/-- Bytes in base64. -/
def readBase64 : Reader Bytes := readBase64With some

/-- So many bytes in base64. -/
def readBase64Fixed (n : Nat) : Reader (FixedBytes n) := readBase64With (FixedBytes.ofBytes? n)

/-- So many bytes in hexadecimal digits.  Where the digits are wrong is left to the object around
them. -/
def readHex (n : Nat) : Reader (FixedBytes n) := fun t =>
  match readText "a string" t with
  | .error fault => .error fault
  | .ok (s, rest) =>
    match Hex.decode s with
    | .error fault => failLater (.content fault.message) rest
    | .ok bytes =>
      match FixedBytes.ofBytes? n bytes with
      | some fixed => .ok (fixed, rest)
      | none => failLater (wrongByteCount bytes.length) rest

/-- A value or `null`. -/
def readOption {α : Type} (reader : Reader α) : Reader (Option α) := fun t =>
  match skipBlank t with
  | 'n' :: rest =>
    match expectWord ['u', 'l', 'l'] rest with
    | .ok rest => .ok (none, rest)
    | .error fault => .error fault
  | rest => mapResult some (reader rest)

/-! ## Lists -/

/-- Whether another item follows, and the text where it begins or where the list ends. -/
def nextItem (first : Bool) (t : Text) : Result Bool :=
  match skipBlank t with
  | [] => failPast .endInList []
  | c :: rest =>
    if c = ']' then .ok (false, c :: rest)
    else if first then .ok (true, c :: rest)
    else if c = ',' then
      match skipBlank rest with
      | [] => failPast .endInValue []
      | c :: rest => if c = ']' then failPast .trailingComma (c :: rest) else .ok (true, c :: rest)
    else failPast .noListEnd (c :: rest)

/-- The text after the end of a list. -/
def endList (t : Text) : Except Fault Text :=
  match skipBlank t with
  | [] => failPast .endInList []
  | ']' :: rest => .ok rest
  | ',' :: rest =>
    match skipBlank rest with
    | ']' :: rest => failPast .trailingComma (']' :: rest)
    | rest => failPast .trailingCharacters rest
  | rest => failPast .trailingCharacters rest

/-- Where a list is left that has a fault in it. -/
def leaveList (t : Text) : Text :=
  match skipBlank t with
  | ']' :: rest => rest
  | ',' :: rest => skipBlank rest
  | rest => rest

/-- What a list holds, together with its end. -/
def closeList {α : Type} : Result α → Result α
  | .ok (a, rest) =>
    match endList rest with
    | .ok rest => .ok (a, rest)
    | .error fault => .error fault
  | .error (.pending cause rest) => failAt cause (leaveList rest)
  | .error fault => .error fault

/-- The items of a list from one of them on; there are at most as many as `fuel` has
characters. -/
def readItems {α : Type} (reader : Reader α) (fuel : Text) (first : Bool) (t : Text) :
    Result (List α) :=
  match fuel with
  | [] => failAt .endInList t
  | _ :: fuel =>
    match nextItem first t with
    | .error fault => .error fault
    | .ok (false, rest) => .ok ([], rest)
    | .ok (true, rest) =>
      match reader rest with
      | .error fault => .error fault
      | .ok (a, rest) => mapResult (a :: ·) (readItems reader fuel false rest)

/-- A list. -/
def readList {α : Type} (reader : Reader α) : Reader (List α) := fun t =>
  match skipBlank t with
  | [] => failPast .endInValue []
  | '[' :: rest => closeList (readItems reader ('[' :: rest) true rest)
  | rest => .error (mismatch "a sequence" rest)

/-! ## Objects -/

/-- What a key means to an object of which some fields have been read. -/
inductive Meaning (σ : Type) where
  | unknown
  /-- A field that has been read before. -/
  | again
  /-- A field, with a reader that adds it. -/
  | field (reader : Reader σ)

/-- The form of an object whose fields are collected in a `σ`. -/
structure Record (σ α : Type) where
  name : String
  /-- The names of the fields in order; those that may be missing come last. -/
  fields : List String
  /-- How many fields have to be there. -/
  needed : Nat
  /-- What a key means. -/
  meaning : String → σ → Meaning σ
  /-- What is collected before the first field. -/
  start : σ
  /-- The object, or the first field that is missing. -/
  finish : σ → Except String α

/-- Whether another field follows, and the text after the quote of its key or where the object
ends. -/
def nextKey (first : Bool) (t : Text) : Result Bool :=
  match skipBlank t with
  | [] => failPast .endInObject []
  | c :: rest =>
    if c = '\x7d' then .ok (false, c :: rest)
    else if first then
      if c = '"' then .ok (true, rest) else failPast .keyNotString (c :: rest)
    else if c = ',' then
      match skipBlank rest with
      | [] => failPast .endInValue []
      | '"' :: rest => .ok (true, rest)
      | c :: rest =>
        failPast (if c = '\x7d' then .trailingComma else .keyNotString) (c :: rest)
    else failPast .noObjectEnd (c :: rest)

/-- The text after the end of an object. -/
def endObject (t : Text) : Except Fault Text :=
  match skipBlank t with
  | [] => failPast .endInObject []
  | '\x7d' :: rest => .ok rest
  | ',' :: rest => failPast .trailingComma (',' :: rest)
  | rest => failPast .trailingCharacters rest

/-- Where an object is left that has a fault in it. -/
def leaveObject (t : Text) : Text :=
  match skipBlank t with
  | '\x7d' :: rest => rest
  | rest => rest

/-- What an object holds, together with its end. -/
def closeObject {α : Type} : Result α → Result α
  | .ok (a, rest) =>
    match endObject rest with
    | .ok rest => .ok (a, rest)
    | .error fault => .error fault
  | .error (.pending cause rest) => failAt cause (leaveObject rest)
  | .error fault => .error fault

namespace Record

variable {σ α : Type}

/-- The field of a key, whose text comes after the key. -/
def readField (r : Record σ α) (key : String) (s : σ) (t : Text) : Result σ :=
  match r.meaning key s with
  | .again => failLater (.duplicateField key) t
  | .unknown =>
    match expectColon t with
    | .error fault => .error fault
    | .ok rest =>
      match skipValue rest with
      | .error fault => .error fault
      | .ok rest => .ok (s, rest)
  | .field reader =>
    match expectColon t with
    | .error fault => .error fault
    | .ok rest => reader rest

/-- The fields of an object from one of them on; there are at most as many as `fuel` has
characters. -/
def readFields (r : Record σ α) (fuel : Text) (first : Bool) (s : σ) (t : Text) : Result σ :=
  match fuel with
  | [] => failAt .endInObject t
  | _ :: fuel =>
    match nextKey first t with
    | .error fault => .error fault
    | .ok (false, rest) => .ok (s, rest)
    | .ok (true, rest) =>
      match readString rest with
      | .error fault => .error fault
      | .ok (key, rest) =>
        match r.readField (String.ofList key) s rest with
        | .error fault => .error fault
        | .ok (s, rest) => r.readFields fuel false s rest

/-- The fields of an object that is given as a list.  `index` fields have been read. -/
def readInOrder (r : Record σ α) (index : Nat) (s : σ) (t : Text) : List String → Result σ
  | [] => .ok (s, t)
  | name :: names =>
    match nextItem (index = 0) t with
    | .error fault => .error fault
    | .ok (false, rest) =>
      if index < r.needed then
        let plural := if r.fields.length = 1 then "" else "s"
        failLater
          (.wrongLength index s!"struct {r.name} with {r.fields.length} element{plural}") rest
      else .ok (s, rest)
    | .ok (true, rest) =>
      match r.meaning name s with
      | .field reader =>
        match reader rest with
        | .error fault => .error fault
        | .ok (s, rest) => r.readInOrder (index + 1) s rest names
      | _ => failLater (.duplicateField name) rest

/-- The object that the fields make up. -/
def complete (r : Record σ α) : Result σ → Result α
  | .error fault => .error fault
  | .ok (s, rest) =>
    match r.finish s with
    | .ok a => .ok (a, rest)
    | .error name => failLater (.missingField name) rest

/-- An object, or the list of its fields in order. -/
def read (r : Record σ α) : Reader α := fun t =>
  match skipBlank t with
  | [] => failPast .endInValue []
  | '[' :: rest => closeList (r.complete (r.readInOrder 0 r.start rest r.fields))
  | '\x7b' :: rest => closeObject (r.complete (r.readFields ('\x7b' :: rest) true r.start rest))
  | rest => .error (mismatch s!"struct {r.name}" rest)

end Record

/-! ## Whole texts -/

/-- The value of a text that holds one value and nothing else. -/
def decode {α : Type} (reader : Reader α) (t : Text) : Except Fault α :=
  match reader t with
  | .error fault => .error fault
  | .ok (a, rest) =>
    match skipBlank rest with
    | [] => .ok a
    | rest => failPast .trailingCharacters rest

end MemoryHard.Json
