import MemoryHard.Bytes.Hex

/-!
# MemoryHard.Bytes.Base64 — bytes as base64 symbols

Three bytes are four symbols of six bits.  A last group of one or two bytes is two or three
symbols; the standard form fills it up to four with `=`.

* `Base64.encode` — the symbols of some bytes, padded or not as the alphabet says;
* `Base64.decode` — the bytes of a text in the standard alphabet.  The filling may be missing,
  but bits left over in the last symbol must be zero.
-/

namespace MemoryHard.Bytes.Base64

/-- The parts in which the base64 forms differ. -/
structure Alphabet where
  symbol62 : Char
  symbol63 : Char
  /-- Whether the last group is filled up. -/
  pads : Bool

/-- The standard form. -/
def standard : Alphabet := ⟨'+', '/', true⟩

/-- The form for names and addresses. -/
def urlSafe : Alphabet := ⟨'-', '_', false⟩

/-- The symbol of a number below 64. -/
def symbol (a : Alphabet) (n : Nat) : Char :=
  if n < 26 then Char.ofNat (65 + n)
  else if n < 52 then Char.ofNat (71 + n)
  else if n < 62 then Char.ofNat (n - 4)
  else if n = 62 then a.symbol62
  else a.symbol63

/-- The filling of a last group that lacks `n` symbols. -/
def filling (a : Alphabet) (n : Nat) : List Char := if a.pads then List.replicate n '=' else []

/-- The symbols of some bytes. -/
def encode (a : Alphabet) : Bytes → List Char
  | [] => []
  | [x] => [symbol a (x.toNat / 4), symbol a (x.toNat % 4 * 16)] ++ filling a 2
  | [x, y] =>
    [symbol a (x.toNat / 4), symbol a (x.toNat % 4 * 16 + y.toNat / 16),
      symbol a (y.toNat % 16 * 4)] ++ filling a 1
  | x :: y :: z :: rest =>
    symbol a (x.toNat / 4) :: symbol a (x.toNat % 4 * 16 + y.toNat / 16) ::
      symbol a (y.toNat % 16 * 4 + z.toNat / 64) :: symbol a (z.toNat % 64) :: encode a rest

/-- Why a text does not read as base64. -/
inductive Fault where
  /-- The byte at this offset is no symbol, or a `=` out of place. -/
  | invalidByte (offset : Nat) (byte : UInt8)
  /-- The text ends within a group, after this many symbols. -/
  | invalidLength (length : Nat)
  /-- The last symbol, which stands at this offset and for this number, has bits left over. -/
  | invalidLastSymbol (offset : Nat) (byte : UInt8) (value : Nat)
deriving DecidableEq, Repr

/-- The eight binary digits of a number below 256. -/
def binaryDigits (n : Nat) : String := String.ofList ((Nat.toDigits 2 n).leftpad 8 '0')

/-- The wording of a fault. -/
def Fault.message : Fault → String
  | .invalidByte offset byte => s!"Invalid symbol {byte}, offset {offset}."
  | .invalidLength length => s!"Invalid input length: {length}"
  | .invalidLastSymbol offset byte value =>
    s!"Invalid last symbol 0x{Hex.text [byte]} ({Text.quotedChar (Char.ofNat byte.toNat)}) " ++
      s!"at offset {offset}, decoded as 0b{binaryDigits value}."

/-- The byte that fills up a last group. -/
def padding : UInt8 := 61

/-- The number a symbol of the standard alphabet stands for; symbols are given as bytes. -/
def value? (x : UInt8) : Option Nat :=
  let n := x.toNat
  if 65 ≤ n ∧ n ≤ 90 then some (n - 65)
  else if 97 ≤ n ∧ n ≤ 122 then some (n - 71)
  else if 48 ≤ n ∧ n ≤ 57 then some (n + 4)
  else if n = 43 then some 62
  else if n = 47 then some 63
  else none

/-- The number of the symbol at `offset`. -/
def valueAt (offset : Nat) (x : UInt8) : Except Fault Nat :=
  match value? x with
  | some n => .ok n
  | none => .error (.invalidByte offset x)

/-- The symbols of a last group with their numbers, the filling left out.  `start` is the offset
of the group, `index` the place in it, and `filled` the place of the first `=` met so far. -/
def lastSymbols (start index : Nat) (filled : Option Nat) :
    Bytes → Except Fault (List (UInt8 × Nat))
  | [] => .ok []
  | x :: rest =>
    if x = padding then
      if index < 2 then .error (.invalidByte (start + index) x)
      else lastSymbols start (index + 1) (filled <|> some index) rest
    else
      match filled with
      | some first => .error (.invalidByte (start + first) padding)
      | none => do
        let n ← valueAt (start + index) x
        return (x, n) :: (← lastSymbols start (index + 1) none rest)

/-- The bytes of the last group, which begins at `start` and has at most four symbols. -/
def decodeLast (start : Nat) (group : Bytes) : Except Fault Bytes := do
  match ← lastSymbols start 0 none group with
  | [] => if group = [] then .ok [] else .error (.invalidLength start)
  | [_] => .error (.invalidLength (start + 1))
  | [(_, a), (x, b)] =>
    if b % 16 ≠ 0 then .error (.invalidLastSymbol (start + 1) x b)
    else .ok [UInt8.ofNat (a * 4 + b / 16)]
  | [(_, a), (_, b), (x, c)] =>
    if c % 4 ≠ 0 then .error (.invalidLastSymbol (start + 2) x c)
    else .ok [UInt8.ofNat (a * 4 + b / 16), UInt8.ofNat (b % 16 * 16 + c / 4)]
  | (_, a) :: (_, b) :: (_, c) :: (_, d) :: _ =>
    .ok [UInt8.ofNat (a * 4 + b / 16), UInt8.ofNat (b % 16 * 16 + c / 4),
      UInt8.ofNat (c % 4 * 64 + d)]

/-- The bytes of the groups from the one at `start` on.  A group that another symbol follows is
a whole one. -/
def decodeGroups (start : Nat) : Bytes → Except Fault Bytes
  | w :: x :: y :: z :: next :: rest => do
    let a ← valueAt start w
    let b ← valueAt (start + 1) x
    let c ← valueAt (start + 2) y
    let d ← valueAt (start + 3) z
    let bytes ← decodeGroups (start + 4) (next :: rest)
    return UInt8.ofNat (a * 4 + b / 16) :: UInt8.ofNat (b % 16 * 16 + c / 4) ::
      UInt8.ofNat (c % 4 * 64 + d) :: bytes
  | group => decodeLast start group

/-- A lone symbol after the last whole group is looked at before all others. -/
def checkLone (b : Bytes) : Except Fault Unit :=
  match b.getLast? with
  | some x =>
    if b.length % 4 = 1 ∧ x ≠ padding then (valueAt (b.length - 1) x).map fun _ => ()
    else .ok ()
  | none => .ok ()

/-- The bytes whose symbols in the standard alphabet are given. -/
def decode (s : List Char) : Except Fault Bytes := do
  let b := utf8 s
  checkLone b
  decodeGroups 0 b

end MemoryHard.Bytes.Base64
