import MemoryHard.Challenge
import MemoryHard.Params

/-!
# MemoryHard.Proof.Walk — the walk of a nonce

A walk visits blocks in an order that nobody can foresee: each digest selects a block, and the
next digest is taken of the one before and the block it selected.

* `walkStart`, `walkIndex`, `walkNext` — the first digest, the block it selects, the next digest;
* `walkFrom`, `walk` — the indices visited and the last digest, over any store of blocks.
-/

namespace MemoryHard

open MemoryHard.Bytes

variable [HashSuite]

/-- The digest a walk starts from. -/
def walkStart (c : Challenge) (root : Bytes) (nonce : UInt32) : FixedBytes 32 :=
  HashSuite.short (c.bytes.toList ++ root ++ le32 nonce)

/-- The block, of `count`, that a digest selects. -/
def walkIndex (count : Nat) (digest : FixedBytes 32) : Nat := leNat (digest.toList.take 8) % count

/-- The digest after a visit. -/
def walkNext (digest : FixedBytes 32) (block : Block) : FixedBytes 32 :=
  HashSuite.short (digest.toList ++ block.toBytes)

/-- The walk of so many steps from a digest on: the indices selected and the last digest.  There
is no last digest if a selected block is missing from the store; the walk ends with its index. -/
def walkFrom (store : Nat → Option Block) (count : Nat) :
    (steps : Nat) → FixedBytes 32 → List Nat × Option (FixedBytes 32)
  | 0, digest => ([], some digest)
  | steps + 1, digest =>
    let index := walkIndex count digest
    match store index with
    | none => ([index], none)
    | some block =>
      let (rest, last) := walkFrom store count steps (walkNext digest block)
      (index :: rest, last)

/-- The walk of a nonce. -/
def walk (store : Nat → Option Block) (p : Params) (c : Challenge) (root : Bytes)
    (nonce : UInt32) : List Nat × Option (FixedBytes 32) :=
  walkFrom store p.blockCount p.searchLength.toNat (walkStart c root nonce)

end MemoryHard
