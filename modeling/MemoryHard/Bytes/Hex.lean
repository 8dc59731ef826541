import MemoryHard.Bytes
import MemoryHard.Text.Quoted

/-!
# MemoryHard.Bytes.Hex — bytes as hexadecimal digits

Each byte is two digits, the high one first.  Digits are written in lower case and read in either
case.

* `Hex.encode` — the digits of some bytes;
* `Hex.decode` — the bytes of a text, which is taken byte by byte in its UTF-8 form;
* `Hex.decodeFixed` — the same where the number of bytes is known.
-/

namespace MemoryHard.Bytes.Hex

/-- Why a text does not read as hexadecimal digits. -/
inductive Fault where
  /-- The digits do not pair up. -/
  | oddLength
  /-- There are not as many pairs as bytes are wanted. -/
  | wrongLength
  /-- The byte at this offset is not a digit. -/
  | notADigit (byte : UInt8) (offset : Nat)
deriving DecidableEq, Repr

/-- The wording of a fault. -/
def Fault.message : Fault → String
  | .oddLength => "Odd number of digits"
  | .wrongLength => "Invalid string length"
  | .notADigit byte offset =>
    s!"Invalid character {Text.quotedChar (Char.ofNat byte.toNat)} at position {offset}"

/-- The digit of a number below 16. -/
def digit (n : Nat) : Char := Char.ofNat (if n < 10 then 48 + n else 87 + n)

/-- The two digits of a byte. -/
def encodeByte (x : UInt8) : List Char := [digit (x.toNat / 16), digit (x.toNat % 16)]

/-- The digits of some bytes. -/
def encode (b : Bytes) : List Char := b.flatMap encodeByte

/-- The digits of some bytes as a string. -/
def text (b : Bytes) : String := String.ofList (encode b)

/-- The number a digit stands for; digits are given as bytes. -/
def value? (x : UInt8) : Option Nat :=
  let n := x.toNat
  if 48 ≤ n ∧ n ≤ 57 then some (n - 48)
  else if 97 ≤ n ∧ n ≤ 102 then some (n - 87)
  else if 65 ≤ n ∧ n ≤ 70 then some (n - 55)
  else none

/-- Reads pairs of digits from the byte at `offset` on; the first byte that is no digit is at
fault. -/
def decodePairs (offset : Nat) : Bytes → Except Fault Bytes
  | x :: y :: rest =>
    match value? x, value? y with
    | none, _ => .error (.notADigit x offset)
    | some _, none => .error (.notADigit y (offset + 1))
    | some high, some low =>
      (decodePairs (offset + 2) rest).map (UInt8.ofNat (16 * high + low) :: ·)
  | _ => .ok []

/-- The bytes whose digits are given. -/
def decode (s : List Char) : Except Fault Bytes :=
  let b := utf8 s
  if b.length % 2 ≠ 0 then .error .oddLength else decodePairs 0 b

/-- The `n` bytes whose digits are given. -/
def decodeFixed (n : Nat) (s : List Char) : Except Fault (FixedBytes n) :=
  let b := utf8 s
  if b.length % 2 ≠ 0 then .error .oddLength
  else if b.length / 2 ≠ n then .error .wrongLength
  else
    match decodePairs 0 b with
    | .error fault => .error fault
    | .ok bytes =>
      match FixedBytes.ofBytes? n bytes with
      | some fixed => .ok fixed
      | none => .error .wrongLength

end MemoryHard.Bytes.Hex
