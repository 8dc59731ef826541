import MemoryHard.Challenge
import MemoryHard.Params.Validity

/-!
# MemoryHard.Commitment.Path — from a block up to the root

The blocks of a memory are the leaves of a hash tree.  Every hash takes in the challenge of the
job, and a node without a neighbour at the end of its level is paired with itself.  A path holds
the neighbours met on the way from a leaf to the root.

* `leafHash`, `nodeHash` — the hashes, over `leafMessage` and `nodeMessage`;
* `treeDepth` — how many levels there are above the leaves;
* `HashPath.verify` — whether a path leads from a block to a root.
-/

namespace MemoryHard

open MemoryHard.Bytes

/-- What the hash of a leaf is taken of. -/
def leafMessage (c : Challenge) (block : Block) : Bytes := block.toBytes ++ c.bytes.toList

/-- What the hash of an inner node is taken of. -/
def nodeMessage (c : Challenge) (left right : Bytes) : Bytes := left ++ right ++ c.bytes.toList

/-- How many levels there are above so many leaves. -/
def treeDepth (leafCount : Nat) : Nat :=
  if leafCount ≤ 1 then 0 else treeDepth ((leafCount + 1) / 2) + 1

/-- The neighbours of the nodes between a leaf and the root, bottom up. -/
structure HashPath where
  /-- One neighbour for each level below the root. -/
  siblings : List Bytes
deriving DecidableEq

variable [HashSuite]

/-- The hash of a leaf. -/
def leafHash (c : Challenge) (width : Nat) (block : Block) : Bytes :=
  HashSuite.wide width (leafMessage c block)

/-- The hash of an inner node. -/
def nodeHash (c : Challenge) (width : Nat) (left right : Bytes) : Bytes :=
  HashSuite.wide width (nodeMessage c left right)

/-- Climbs from the node `current`, number `index` in a level of `count` nodes, along its
neighbours.  A neighbour has to be as wide as a node, and the last node of a level of odd length
has to be its own neighbour. -/
def climb (c : Challenge) (width index count : Nat) (current : Bytes) : List Bytes → Option Bytes
  | [] => some current
  | sibling :: rest =>
    if sibling.length ≠ width then none
    else if index % 2 = 0 then
      if index + 1 = count ∧ sibling ≠ current then none
      else climb c width (index / 2) ((count + 1) / 2) (nodeHash c width current sibling) rest
    else climb c width (index / 2) ((count + 1) / 2) (nodeHash c width sibling current) rest

/-- Whether a path leads from `block`, leaf number `index` of `count`, to `root`. -/
def HashPath.verify (path : HashPath) (c : Challenge) (width count index : Nat) (block : Block)
    (root : Bytes) : Bool :=
  minNodeWidth ≤ width && width ≤ maxNodeWidth && index < count &&
    path.siblings.length = treeDepth count &&
    climb c width index count (leafHash c width block) path.siblings = some root

end MemoryHard
