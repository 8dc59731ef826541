import MemoryHard.Failure
import MemoryHard.Params.Validity

/-!
# MemoryHard.Target — how small a digest has to be

Digests and targets are numbers of 256 bits, most significant byte first.  A digest meets a
target if it is not above it.

* `Target.ofDifficulty` — the target for a number of leading zero bits;
* `Target.ofHex` — a target in hexadecimal digits;
* `Target.isMetBy` — whether a digest meets a target;
* `leadingZeros` — the leading zero bits of a byte string.
-/

namespace MemoryHard

open MemoryHard.Bytes

/-- The result of a search walk. -/
abbrev WalkDigest := FixedBytes 32

/-- The largest digest that is small enough. -/
structure Target where
  bytes : FixedBytes 32
deriving DecidableEq

namespace Target

/-- The target that every digest meets. -/
def easiest : Target := ⟨.replicate 32 0xff⟩

/-- The target that only the digest zero meets. -/
def hardest : Target := ⟨.replicate 32 0⟩

/-- Byte `i` of the target for `bits` leading zero bits. -/
def difficultyByte (bits i : Nat) : UInt8 :=
  if i < bits / 8 then 0 else if i = bits / 8 then UInt8.ofNat (255 >>> (bits % 8)) else 0xff

/-- The target that the digests with `bits` leading zero bits meet, and no others. -/
def ofDifficulty (bits : Nat) : Except Failure Target :=
  if digestBits < bits then .error (.parameter (.difficulty bits))
  else .ok ⟨⟨(List.range 32).map (difficultyByte bits), by simp⟩⟩

/-- The target whose 64 digits are given. -/
def ofHex (text : String) : Except Failure Target :=
  match Hex.decodeFixed 32 text.toList with
  | .ok bytes => .ok ⟨bytes⟩
  | .error fault => .error (.parameter (.target text fault))

/-- The digits of a target. -/
def text (t : Target) : String := Hex.text t.bytes.toList

/-- Whether a digest meets a target. -/
def isMetBy (t : Target) (d : WalkDigest) : Bool := atMost d.toList t.bytes.toList

end Target

/-- The number of leading zero bits of a byte string, most significant byte first. -/
def leadingZeros : Bytes → Nat
  | [] => 0
  | x :: rest => if x = 0 then 8 + leadingZeros rest else 7 - x.toNat.log2

end MemoryHard
