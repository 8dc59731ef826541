import MemoryHard.Digest.Blake2b
import MemoryHard.Digest.Blake3
import MemoryHard.Digest.Suite

/-!
# MemoryHard.Digest.Standard — the standard suite of hash functions

Blake2b gives the digests of chosen width, Blake3 those of 32 bytes.
-/

namespace MemoryHard.Digest

instance standardSuite : HashSuite where
  wide := Blake2b.digest
  length_wide _ msg hw := Blake2b.length_digest msg hw
  short := Blake3.digest

end MemoryHard.Digest
