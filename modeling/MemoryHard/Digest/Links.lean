import MemoryHard.Digest.Suite

/-!
# MemoryHard.Digest.Links — the links behind a stretched digest

A stretched digest is made of the first halves of a chain of 64-byte digests, and of a last
digest as wide as what is left.

* `link` — the links of the chain;
* `linked` — the output put together from the links, without running along them;
* `hash?`, `chain?`, `stretch?` — hashing where a width outside 1 to 64 has no value.
-/

namespace MemoryHard.Digest

open MemoryHard.Bytes HashSuite

variable [HashSuite]

/-! ## Closed form -/

/-- Link number `i` of the chain for some output. -/
def link (length : Nat) (input : Bytes) : (i : Nat) → Bytes
  | 0 => wide 64 (leBytes 4 length ++ input)
  | i + 1 => wide 64 (link length input i)

/-- How many links give their first half. -/
def halfCount (length : Nat) : Nat := (length + 31) / 32 - 2

/-- The output of `length` bytes, put together from the links. -/
def linked (length : Nat) (input : Bytes) : Bytes :=
  if length ≤ 64 then wide length (leBytes 4 length ++ input)
  else
    let r := halfCount length
    (List.range r).flatMap (fun i => (link length input i).take 32) ++
      wide (length - 32 * r) (link length input (r - 1))

/-! ## Widths in range -/

/-- A digest whose width is in range. -/
def hash? (width : Nat) (msg : Bytes) : Option Bytes :=
  if 1 ≤ width ∧ width ≤ maxWidth then some (wide width msg) else none

/-- The `remaining` bytes that follow a link, with every width in range. -/
def chain? (remaining : Nat) (v : Bytes) : Option Bytes :=
  if remaining ≤ 64 then hash? remaining v
  else do
    let next ← hash? 64 v
    return next.take 32 ++ (← chain? (remaining - 32) next)
termination_by remaining

/-- `length` bytes drawn from `input`, with every width in range. -/
def stretch? (length : Nat) (input : Bytes) : Option Bytes :=
  let message := leBytes 4 length ++ input
  if length ≤ 64 then hash? length message
  else do
    let first ← hash? 64 message
    return first.take 32 ++ (← chain? (length - 32) first)

end MemoryHard.Digest
