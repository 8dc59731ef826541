import MemoryHard.Digest.Links
import MemoryHard.Geometry.Checked

/-!
# MemoryHard.Digest.Buffer — a stretched digest written into a buffer

A stretched digest can be written into a buffer as long as the output, half a link at a time, and
what is left at the end.  Its input may come in parts.  A run of bytes that reaches beyond the end
of the buffer cannot be written, a digest whose width is out of range has no value, nor has a loop
that is not done after the rounds it is given.

* `overwrite?` — a buffer with a run of bytes written into it;
* `hashParts?` — a digest of a message in parts;
* `writeLinks?` — the links from one on, and what is left;
* `stretchInto?` — the whole output.
-/

namespace MemoryHard.Digest

open MemoryHard.Bytes MemoryHard.Word

/-- A buffer with a run of bytes written into it from place `start` on, if it ends in the buffer. -/
def overwrite? (buffer : Bytes) (start : Nat) (run : Bytes) : Option Bytes :=
  if start + run.length ≤ buffer.length then
    some (buffer.take start ++ run ++ buffer.drop (start + run.length))
  else none

variable [HashSuite]

/-- A digest of the parts of a message, one after the other. -/
def hashParts? (width : Nat) (parts : List Bytes) : Option Bytes := hash? width parts.flatten

/-- A buffer of which the first `written` bytes are there, with all that follows the link `v`
written into it.  Each round writes the half of a link, and the last one what is left. -/
def writeLinks? : (rounds : Nat) → (buffer : Bytes) → (written : Nat) → (v : Bytes) → Option Bytes
  | 0, _, _, _ => none
  | rounds + 1, buffer, written, v => do
    let remaining ← sub? buffer.length written
    if remaining ≤ 64 then overwrite? buffer written (← hashParts? remaining [v])
    else
      let next ← hashParts? 64 [v]
      writeLinks? rounds (← overwrite? buffer written (next.take 32)) (written + 32) next

/-- A buffer with as many bytes drawn from the parts of an input as it holds. -/
def stretchInto? (rounds : Nat) (buffer : Bytes) (parts : List Bytes) : Option Bytes := do
  let message := le32 (UInt32.ofNat buffer.length) :: parts
  if buffer.length ≤ 64 then overwrite? buffer 0 (← hashParts? buffer.length message)
  else
    let first ← hashParts? 64 message
    writeLinks? rounds (← overwrite? buffer 0 (first.take 32)) 32 first

end MemoryHard.Digest
