/-!
# MemoryHard.Json — JSON values and their text

* `Json` — a value: a natural number, a string, a list or an object;
* `Json.compact` — its text without a blank;
* `Json.pretty` — its text with one item a line, two blanks deeper for each level.
-/

namespace MemoryHard

/-- A JSON value. -/
inductive Json where
  | number (n : Nat)
  | string (s : List Char)
  | list (items : List Json)
  | object (fields : List (String × Json))

namespace Json

/-- How a character is written in a string. -/
def escape (c : Char) : List Char :=
  if c = '"' then ['\\', '"']
  else if c = '\\' then ['\\', '\\']
  else if c = '\x08' then ['\\', 'b']
  else if c = '\x0c' then ['\\', 'f']
  else if c = '\n' then ['\\', 'n']
  else if c = '\r' then ['\\', 'r']
  else if c = '\t' then ['\\', 't']
  else if c.toNat < 0x20 then
    ['\\', 'u', '0', '0', Nat.digitChar (c.toNat / 16), Nat.digitChar (c.toNat % 16)]
  else [c]

/-- The text of a string. -/
def quote (s : List Char) : List Char := '"' :: s.flatMap escape ++ ['"']

/-- The blanks that a text may have between its parts. -/
structure Layout where
  /-- What stands in front of an item or of a closing bracket, by depth. -/
  lineBreak : (depth : Nat) → List Char
  /-- What stands behind the colon of a field. -/
  afterColon : List Char

/-- No blanks. -/
def dense : Layout := ⟨fun _ => [], []⟩

/-- One item a line. -/
def spread : Layout := ⟨fun depth => '\n' :: List.replicate (2 * depth) ' ', [' ']⟩

mutual

/-- The text of a value that stands `depth` levels deep. -/
def render (l : Layout) (depth : Nat) : Json → List Char
  | .number n => Nat.toDigits 10 n
  | .string s => quote s
  | .list [] => ['[', ']']
  | .list (item :: items) =>
    '[' :: l.lineBreak (depth + 1) ++ render l (depth + 1) item ++
      renderItems l (depth + 1) items ++ l.lineBreak depth ++ [']']
  | .object [] => ['\x7b', '\x7d']
  | .object (field :: fields) =>
    '\x7b' :: l.lineBreak (depth + 1) ++ renderField l (depth + 1) field ++
      renderFields l (depth + 1) fields ++ l.lineBreak depth ++ ['\x7d']

/-- The text of the items after the first. -/
def renderItems (l : Layout) (depth : Nat) : List Json → List Char
  | [] => []
  | item :: items =>
    ',' :: l.lineBreak depth ++ render l depth item ++ renderItems l depth items

/-- The text of a field. -/
def renderField (l : Layout) (depth : Nat) : String × Json → List Char
  | (name, value) => quote name.toList ++ ':' :: l.afterColon ++ render l depth value

/-- The text of the fields after the first. -/
def renderFields (l : Layout) (depth : Nat) : List (String × Json) → List Char
  | [] => []
  | field :: fields =>
    ',' :: l.lineBreak depth ++ renderField l depth field ++ renderFields l depth fields

end

/-- The text of a value without a blank. -/
def compact (v : Json) : String := String.ofList (render dense 0 v)

/-- The text of a value with one item a line. -/
def pretty (v : Json) : String := String.ofList (render spread 0 v)

end Json

end MemoryHard
