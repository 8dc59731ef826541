import MemoryHard.Bytes

/-!
# MemoryHard.Digest.Suite — the hash functions a computation rests on

Everything above the hash functions takes them from a `HashSuite`, and relies on nothing but the
lengths of their outputs.

* `HashSuite` — a hash of any width up to 64 bytes, and one of 32 bytes;
* `HashSuite.wide?` — the first of them where the width is not known to be in range;
* `stretch` — output of any length, drawn from a chain of 64-byte digests;
* `output?` — the same where there may be no room for it;
* `length_stretch` — it has the length asked for.
-/

namespace MemoryHard

open MemoryHard.Bytes

/-- The hash functions a computation rests on. -/
class HashSuite where
  /-- A digest of `width ≤ 64` bytes. -/
  wide : (width : Nat) → Bytes → Bytes
  /-- It has that many bytes. -/
  length_wide : ∀ width msg, width ≤ 64 → (wide width msg).length = width
  /-- A digest of 32 bytes. -/
  short : Bytes → FixedBytes 32

namespace HashSuite

/-- The largest width of a digest. -/
def maxWidth : Nat := 64

/-- A digest of `width` bytes, if there are digests so wide. -/
def wide? [HashSuite] (width : Nat) (msg : Bytes) : Option Bytes :=
  if width ≤ maxWidth then some (wide width msg) else none

end HashSuite

namespace Digest

open HashSuite

variable [HashSuite]

/-- The `remaining` bytes that follow a link `v` of the chain: half a link at a time, and the
last link as wide as what is left. -/
def chain (remaining : Nat) (v : Bytes) : Bytes :=
  if remaining ≤ 64 then wide remaining v
  else
    let next := wide 64 v
    next.take 32 ++ chain (remaining - 32) next
termination_by remaining

/-- `length` bytes drawn from `input`.  The length goes in front of the input. -/
def stretch (length : Nat) (input : Bytes) : Bytes :=
  let message := leBytes 4 length ++ input
  if length ≤ 64 then wide length message
  else
    let first := wide 64 message
    first.take 32 ++ chain (length - 32) first

/-- `length` bytes drawn from `input`, if there is room for so many. -/
def output? (length : Nat) (input : Bytes) : Option Bytes :=
  if hasRoom length then some (stretch length input) else none

theorem length_chain (remaining : Nat) (v : Bytes) : (chain remaining v).length = remaining := by
  induction remaining using Nat.strongRecOn generalizing v with
  | _ n ih =>
    rw [chain]
    split
    · exact length_wide n v (by assumption)
    · simp only [List.length_append, List.length_take]
      rw [length_wide 64 v (by omega), ih (n - 32) (by omega)]
      omega

theorem length_stretch (n : Nat) (input : Bytes) : (stretch n input).length = n := by
  unfold stretch
  simp only
  split
  · exact length_wide n _ (by assumption)
  · simp only [List.length_append, List.length_take, length_chain]
    rw [length_wide 64 _ (by omega)]
    omega

end Digest

end MemoryHard
