import MemoryHard.Decimal.Shortest
import MemoryHard.Json.Token

/-!
# MemoryHard.Json.Number — numbers in a JSON text

A number without point and exponent that fits into 64 bits is an integer; any other is read as a
floating point number, and only up to 64 bits of its digits count.

* `Number` — the kinds of numbers, with `Number.text` for their wording;
* `readNumber`, `skipNumber` — a number after its sign, with or without its value.
-/

namespace MemoryHard.Json

/-- A number that has been read. -/
inductive Number where
  /-- A natural number below `2 ^ 64`. -/
  | natural (n : Nat)
  /-- The negative of a positive number up to `2 ^ 63`. -/
  | negative (n : Nat)
  /-- Any other number. -/
  | float (x : Float)

/-- The wording of a number. -/
def Number.text : Number → String
  | .natural n => s!"integer `{n}`"
  | .negative n => s!"integer `-{n}`"
  | .float x => s!"floating point `{Decimal.shortestText x}`"

/-- The largest number of 64 bits. -/
def maxWord : Nat := UInt64.size - 1

/-- The largest exponent that is read. -/
def maxExponent : Nat := 0x7fffffff

/-- The digits at the beginning of a text. -/
def leadingDigits (t : Text) : List Char := t.takeWhile Char.isDigit

/-- The text after its leading digits. -/
def afterDigits (t : Text) : Text := t.dropWhile Char.isDigit

/-- Whether a text begins with a digit. -/
def startsWithDigit : Text → Bool
  | c :: _ => c.isDigit
  | [] => false

/-- Appends digits to a number as long as it stays up to `limit`; tells how many were taken. -/
def appendDigits (limit n : Nat) : List Char → Nat × Nat
  | [] => (n, 0)
  | c :: rest =>
    let next := 10 * n + (c.toNat - 48)
    if limit < next then (n, 0)
    else
      let (result, taken) := appendDigits limit next rest
      (result, taken + 1)

/-- A power of ten as a float. -/
def tenTo (k : Nat) : Float := Float.ofScientific 1 false k

/-- `x * 10 ^ k`, in steps of a float's largest power of ten; `none` if it is too large. -/
def scale (x : Float) (k : Int) : (steps : Nat) → Option Float
  | 0 => some x
  | steps + 1 =>
    if k.natAbs ≤ 308 then
      if 0 ≤ k then
        let y := x * tenTo k.natAbs
        if y.isInf then none else some y
      else some (x / tenTo k.natAbs)
    else if x == 0.0 then some x
    else if 0 ≤ k then none
    else scale (x / tenTo 308) (k + 308) steps

/-- A signed float. -/
def signed (positive : Bool) (x : Float) : Number := .float (if positive then x else -x)

/-- The number `digits * 10 ^ k` in front of `rest`. -/
def floatOf (positive : Bool) (digits : Nat) (k : Int) (rest : Text) : Result Number :=
  match scale (UInt64.ofNat digits).toFloat k 8 with
  | some x => .ok (signed positive x, rest)
  | none => failAt .hugeNumber rest

/-- Splits the sign off an exponent; without sign it is positive. -/
def exponentSign : Text → Bool × Text
  | '+' :: rest => (true, rest)
  | '-' :: rest => (false, rest)
  | rest => (true, rest)

/-- The number `digits * 10 ^ k` times the power of ten whose exponent is read from the text. -/
def readExponent (positive : Bool) (digits : Nat) (k : Int) (t : Text) : Result Number :=
  let (up, t) := exponentSign t
  match t with
  | [] => failAt .endInValue []
  | c :: _ =>
    if !c.isDigit then failPast .badNumber t
    else
      let written := leadingDigits t
      let (e, taken) := appendDigits maxExponent 0 written
      if taken < written.length then
        if digits ≠ 0 ∧ up then failAt .hugeNumber (t.drop (taken + 1))
        else .ok (signed positive 0.0, afterDigits t)
      else floatOf positive digits (if up then k + Int.ofNat e else k - Int.ofNat e) (afterDigits t)

/-- The number `digits * 10 ^ k` times the power of ten that the text may give. -/
def readScale (positive : Bool) (digits : Nat) (k : Int) : Text → Result Number
  | 'e' :: rest => readExponent positive digits k rest
  | 'E' :: rest => readExponent positive digits k rest
  | rest => floatOf positive digits k rest

/-- The integer with the given digits in front of `rest`. -/
def integer (positive : Bool) (n : Nat) (rest : Text) : Result Number :=
  if positive then .ok (.natural n, rest)
  else if n = 0 ∨ 0x8000000000000000 < n then .ok (signed false (UInt64.ofNat n).toFloat, rest)
  else .ok (.negative n, rest)

/-- The digits of the whole part of a number and the rest: a leading zero stands alone. -/
def wholePart : Text → List Char × Text
  | '0' :: rest => (['0'], rest)
  | t => (leadingDigits t, afterDigits t)

/-- A number whose sign has been read. -/
def readNumber (positive : Bool) (t : Text) : Result Number :=
  match t with
  | [] => failAt .endInValue []
  | c :: _ =>
    if !c.isDigit then failPast .badNumber t
    else
      let (whole, rest) := wholePart t
      if c = '0' && startsWithDigit rest then failPast .badNumber rest
      else
        let (n, taken) := appendDigits maxWord 0 whole
        let dropped := whole.length - taken
        match rest with
        | '.' :: rest =>
          if rest.isEmpty then failAt .endInValue []
          else if !startsWithDigit rest then failPast .badNumber rest
          else
            let (n, taken) := appendDigits maxWord n (leadingDigits rest)
            readScale positive n (Int.ofNat dropped - Int.ofNat taken) (afterDigits rest)
        | rest =>
          if dropped = 0 ∧ rest.head? ≠ some 'e' ∧ rest.head? ≠ some 'E' then
            integer positive n rest
          else readScale positive n (Int.ofNat dropped) rest

/-! ## Numbers that do not matter -/

/-- The text after an exponent. -/
def skipExponent (t : Text) : Except Fault Text :=
  let (_, t) := exponentSign t
  if startsWithDigit t then .ok (afterDigits t) else failPast .badNumber t

/-- The text after the exponent that a number may have. -/
def skipScale : Text → Except Fault Text
  | 'e' :: rest => skipExponent rest
  | 'E' :: rest => skipExponent rest
  | rest => .ok rest

/-- The text after a number whose sign has been read. -/
def skipNumber (t : Text) : Except Fault Text :=
  if !startsWithDigit t then failPast .badNumber t
  else
    let (whole, rest) := wholePart t
    if whole = ['0'] && startsWithDigit rest then failPast .badNumber rest
    else
      match rest with
      | '.' :: rest =>
        if startsWithDigit rest then skipScale (afterDigits rest) else failPast .badNumber rest
      | rest => skipScale rest

end MemoryHard.Json
