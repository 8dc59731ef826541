/-!
# MemoryHard.Decimal.Shortest — the shortest decimal of a floating point number

Among the decimals that read back as a number, the one with the fewest digits is written, of
those with equally few the nearest, and of two equally near the one with an even last digit.

* `Binary` — a positive number as an integer times a power of two;
* `Binary.shortest` — its digits and their power of ten;
* `shortestText` — the text: positional for moderate powers of ten, else with an exponent.
-/

namespace MemoryHard.Decimal

/-- The number `mantissa * 2 ^ exponent`, as a 64-bit float holds it. -/
structure Binary where
  mantissa : Nat
  exponent : Int

/-- The smallest integer of a float with full precision, `2 ^ 52`. -/
def Binary.unit : Nat := 0x10000000000000

/-- The parts of a positive float with the given bits. -/
def Binary.ofBits (bits : Nat) : Binary :=
  let fraction : Nat := bits % unit
  let biased : Nat := bits / unit % 0x800
  if biased = 0 then ⟨fraction, -1074⟩ else ⟨unit + fraction, Int.ofNat biased - 1075⟩

/-- A number and the ends of the interval of numbers that round to it, over one denominator. -/
structure Interval where
  low : Nat
  value : Nat
  high : Nat
  den : Nat
  /-- Whether the ends round to the number too. -/
  closed : Bool

/-- The interval of the numbers that round to `b`. -/
def Binary.interval (b : Binary) : Interval :=
  let scale := 1 <<< (b.exponent - 2).toNat
  let below := if b.mantissa = unit ∧ -1074 < b.exponent then 1 else 2
  { low := (4 * b.mantissa - below) * scale
    value := 4 * b.mantissa * scale
    high := (4 * b.mantissa + 2) * scale
    den := 1 <<< (2 - b.exponent).toNat
    closed := b.mantissa % 2 = 0 }

/-- The power of ten with the exponent `k`, which is 1 for negative `k`. -/
def tens (k : Int) : Nat := Nat.pow 10 k.toNat

/-- Whether `n * 10 ^ k` rounds to the number. -/
def Interval.holds (i : Interval) (n : Nat) (k : Int) : Bool :=
  let x := n * tens k * i.den
  let low := i.low * tens (-k)
  let high := i.high * tens (-k)
  if i.closed then low ≤ x && x ≤ high else low < x && x < high

/-- The distance of `n * 10 ^ k` from the number, in units that depend on `k` alone. -/
def Interval.distance (i : Interval) (n : Nat) (k : Int) : Nat :=
  let x := n * tens k * i.den
  let v := i.value * tens (-k)
  x - v + (v - x)

/-- The largest power of ten that is not above the number. -/
def Interval.magnitude (i : Interval) : Int :=
  if i.den ≤ i.value then Int.ofNat (Nat.toDigits 10 (i.value / i.den)).length - 1
  else
    let steps := ((List.range 400).find? fun k => i.den ≤ i.value * tens (Int.ofNat k)).getD 0
    0 - Int.ofNat steps

/-- Whether `n * 10 ^ k`, which is not above the number, is to be taken rather than its neighbour
`(n + 1) * 10 ^ k`: it is nearer, or as near and even. -/
def Interval.prefersLower (i : Interval) (n : Nat) (k : Int) : Bool :=
  let below := i.distance n k
  let above := i.distance (n + 1) k
  below < above || below == above && n % 2 == 0

/-- The best decimal of the form `n * 10 ^ k` for a fixed `k`. -/
def Interval.nearest (i : Interval) (k : Int) : Option Nat :=
  let n := i.value * tens (-k) / (i.den * tens k)
  match i.holds n k, i.holds (n + 1) k with
  | true, true => if i.prefersLower n k then some n else some (n + 1)
  | true, false => some n
  | false, true => some (n + 1)
  | false, false => none

/-- The digits and the power of ten of the shortest decimal of a positive number.  A single digit
that rounds up to ten is the digit one of the next power. -/
def Binary.shortest (b : Binary) : Nat × Int :=
  let i := b.interval
  let top := i.magnitude
  let found := (List.range 17).findSome? fun n =>
    (i.nearest (top - Int.ofNat n)).map fun digits => (digits, top - Int.ofNat n)
  match found with
  | some (digits, k) => if digits % 10 = 0 then (digits / 10, k + 1) else (digits, k)
  | none => (0, 0)

/-- The text of an exponent, which always has a sign. -/
def exponentText (e : Int) : List Char :=
  'e' :: (if e < 0 then '-' else '+') :: Nat.toDigits 10 e.natAbs

/-- The text of `n * 10 ^ k`: with an exponent if the leading digit stands for less than `10 ^ -5`
or for `10 ^ 16` and more. -/
def decimalText (n : Nat) (k : Int) : List Char :=
  let digits := Nat.toDigits 10 n
  let point := Int.ofNat digits.length + k
  if 0 ≤ k ∧ point ≤ 16 then digits ++ List.replicate k.toNat '0' ++ ['.', '0']
  else if 0 < point ∧ point ≤ 16 then
    digits.take point.toNat ++ '.' :: digits.drop point.toNat
  else if -5 < point ∧ point ≤ 0 then '0' :: '.' :: List.replicate (-point).toNat '0' ++ digits
  else
    let exponent := exponentText (point - 1)
    if digits.length = 1 then digits ++ exponent
    else digits.take 1 ++ '.' :: digits.drop 1 ++ exponent

/-- The text of a finite float. -/
def shortestText (f : Float) : String :=
  let bits := f.toBits.toNat
  let sign := if bits / 0x8000000000000000 = 1 then ['-'] else []
  let magnitude := bits % 0x8000000000000000
  if magnitude = 0 then String.ofList (sign ++ ['0', '.', '0'])
  else
    let (n, k) := (Binary.ofBits magnitude).shortest
    String.ofList (sign ++ decimalText n k)

end MemoryHard.Decimal
