import MemoryHard.Bytes

/-!
# MemoryHard.Block — blocks of memory

A block is 128 words of 64 bits, or 1024 bytes with each word in little-endian order.

* `Block.toBytes`, `Block.ofBytes` — from words to bytes and back;
* `Block.ofBytes?` — a block is read from 1024 bytes and nothing else.
-/

namespace MemoryHard

open MemoryHard.Bytes

/-- 128 words of 64 bits. -/
structure Block where
  words : Vector UInt64 128
deriving DecidableEq

namespace Block

/-- The number of bytes in a block. -/
def byteLength : Nat := 1024

/-- The block of zeros. -/
def zero : Block := ⟨Vector.replicate 128 0⟩

instance : Inhabited Block := ⟨zero⟩

/-- The first word, from which the reference of the next block is drawn. -/
def firstWord (b : Block) : UInt64 := b.words[0]

/-- Word by word exclusive or. -/
def xor (a b : Block) : Block := ⟨a.words.zipWith (· ^^^ ·) b.words⟩

instance : XorOp Block := ⟨xor⟩

/-- The bytes of a block. -/
def toBytes (b : Block) : Bytes := b.words.toList.foldr consWord []

/-- The block with the given bytes; where bytes are missing it has zeros. -/
def ofBytes (b : Bytes) : Block :=
  ⟨⟨(words64 128 b).toArray, by simp⟩⟩

/-- The block with the given bytes, if there are as many as a block has. -/
def ofBytes? (b : Bytes) : Option Block :=
  if b.length = byteLength then some (ofBytes b) else none

theorem toBytes_eq_flatMap (b : Block) : b.toBytes = b.words.toList.flatMap le64 := by
  unfold toBytes
  induction b.words.toList with
  | nil => rfl
  | cons x xs ih => rw [List.foldr_cons, ih, consWord_eq_append, List.flatMap_cons]

theorem length_toBytes (b : Block) : b.toBytes.length = byteLength := by
  simp [toBytes_eq_flatMap, List.length_flatMap, List.map_const', byteLength]

end Block

end MemoryHard
