import MemoryHard.Json.Number

/-!
# MemoryHard.Json.Skip — values that do not matter

The value of an unknown field is read over.  Its brackets have to match, however deep they go,
and its parts have to be well formed.

* `skipValue` — the text after a value.
-/

namespace MemoryHard.Json

/-- What is open around a part of a value. -/
inductive Frame where
  | list
  | object
deriving DecidableEq

/-- The text after the colon of a field. -/
def expectColon (t : Text) : Except Fault Text :=
  match skipBlank t with
  | [] => failPast .endInObject []
  | ':' :: rest => .ok rest
  | rest => failPast .noColon rest

/-- The text after the key of a field and its colon. -/
def skipKey (t : Text) : Except Fault Text :=
  match skipBlank t with
  | [] => failPast .endInObject []
  | '"' :: rest => do expectColon (← skipString rest)
  | rest => failPast .keyNotString rest

/-- The beginning of a value: a whole one if it has no parts, else its opening bracket. -/
def skipOpening (t : Text) : Except Fault (Option Frame × Text) :=
  match skipBlank t with
  | [] => failPast .endInValue []
  | '[' :: rest => .ok (some .list, rest)
  | '\x7b' :: rest => .ok (some .object, rest)
  | 'n' :: rest => return (none, ← expectWord ['u', 'l', 'l'] rest)
  | 't' :: rest => return (none, ← expectWord ['r', 'u', 'e'] rest)
  | 'f' :: rest => return (none, ← expectWord ['a', 'l', 's', 'e'] rest)
  | '-' :: rest => return (none, ← skipNumber rest)
  | '"' :: rest => return (none, ← skipString rest)
  | c :: rest =>
    if c.isDigit then return (none, ← skipNumber (c :: rest)) else failPast .noValue (c :: rest)

/-- The text after what is left of a frame and of those around it.  `afterItem` tells whether an
item has just been read.  Each step reads a character at least, so that `fuel` need not be longer
than the text. -/
def skipItems (fuel : Text) (frame : Frame) (frames : List Frame) (afterItem : Bool) (t : Text) :
    Except Fault Text :=
  match fuel with
  | [] => failAt .endInValue []
  | _ :: fuel =>
    let item (rest : Text) : Except Fault Text :=
      match skipOpening rest with
      | .error fault => .error fault
      | .ok (some inner, rest) => skipItems fuel inner (frame :: frames) false rest
      | .ok (none, rest) => skipItems fuel frame frames true rest
    let next (rest : Text) : Except Fault Text :=
      match frame with
      | .list => item rest
      | .object =>
        match skipKey rest with
        | .error fault => .error fault
        | .ok rest => item rest
    let close (rest : Text) : Except Fault Text :=
      match frames with
      | [] => .ok rest
      | outer :: frames => skipItems fuel outer frames true rest
    match skipBlank t, frame with
    | [], .list => failPast .endInList []
    | [], .object => failPast .endInObject []
    | c :: rest, frame =>
      if c = ',' && afterItem then next rest
      else if c = ']' && frame = .list then close rest
      else if c = '\x7d' && frame = .object then close rest
      else if afterItem then
        failPast (if frame = .list then .noListEnd else .noObjectEnd) (c :: rest)
      else next (c :: rest)

/-- The text after a value. -/
def skipValue (t : Text) : Except Fault Text :=
  match skipOpening t with
  | .error fault => .error fault
  | .ok (some frame, rest) => skipItems t frame [] false rest
  | .ok (none, rest) => .ok rest

end MemoryHard.Json
