import MemoryHard.Block.Derivation
import MemoryHard.Digest.Suite

/-!
# MemoryHard.Challenge — what stands for a job

The challenge of a job is the digest of its header.  It goes into every hash of the commitment
and of the search, and its words are bound into every block.

* `Challenge.ofHeader` — the challenge of a header;
* `Challenge.jobWords` — its eight words.
-/

namespace MemoryHard

open MemoryHard.Bytes

/-- The digest that stands for a job. -/
structure Challenge where
  bytes : FixedBytes 32
deriving DecidableEq

namespace Challenge

/-- The challenge of a header. -/
def ofHeader [HashSuite] (header : Bytes) : Challenge :=
  ⟨⟨HashSuite.wide 32 header, HashSuite.length_wide 32 header (by decide)⟩⟩

/-- The bytes of a challenge as eight little-endian words. -/
def jobWords (c : Challenge) : JobWords :=
  Vector.ofFn fun i => UInt32.ofNat (leNat ((c.bytes.toList.drop (4 * i.val)).take 4))

end Challenge

end MemoryHard
