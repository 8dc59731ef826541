import MemoryHard.Block
import MemoryHard.Digest.Suite
import MemoryHard.Params

/-!
# MemoryHard.Prehash — where a memory starts from

All blocks go back to one digest of the parameters and of four byte strings.  The first two
blocks of each lane, its seeds, are drawn from that digest directly.

* `prehashMessage` — what is hashed: the parameters, then each string after its length;
* `prehash` — its digest;
* `seedBlock` — a seed.
-/

namespace MemoryHard

open MemoryHard.Bytes

/-- The byte strings a memory depends on. -/
structure HashInputs where
  password : Bytes := []
  salt : Bytes := []
  secret : Bytes := []
  associatedData : Bytes := []
deriving DecidableEq

/-- The inputs of a job: its header is both password and salt. -/
def HashInputs.ofHeader (header : Bytes) : HashInputs := ⟨header, header, [], []⟩

/-- A string after its length. -/
def withLength (b : Bytes) : Bytes := leBytes 4 b.length ++ b

/-- The version of the hash, 1.3. -/
def hashVersion : UInt32 := 0x13

/-- The variant of the hash, in which references depend on the data. -/
def hashVariant : UInt32 := 0

/-- What the prehash is the digest of.  The memory cost is the one asked for. -/
def prehashMessage (p : Params) (i : HashInputs) : Bytes :=
  le32 p.lanes ++ le32 p.tagLength ++ le32 p.memoryCost ++ le32 p.passes ++ le32 hashVersion ++
    le32 hashVariant ++ withLength i.password ++ withLength i.salt ++ withLength i.secret ++
    withLength i.associatedData

variable [HashSuite]

/-- The digest that all blocks go back to. -/
def prehash (p : Params) (i : HashInputs) : Bytes := HashSuite.wide 64 (prehashMessage p i)

/-- Seed `which` of a lane. -/
def seedBlock (prehash : Bytes) (lane which : Nat) : Block :=
  Block.ofBytes (Digest.stretch Block.byteLength (prehash ++ leBytes 4 which ++ leBytes 4 lane))

end MemoryHard
