import MemoryHard.Commitment.Path

/-!
# MemoryHard.Commitment.Node — the nodes of a tree, each from its leaves

A node of the hash tree is determined by the leaves below it.  Here it is computed from them
directly, with no level in store.

* `levelWidth`, `levelOffset` — how many nodes a level has, and how many those below it have;
* `nodeAt` — the node at a place of a level.
-/

namespace MemoryHard

open MemoryHard.Bytes

/-- How many nodes a level has; level zero holds the leaves. -/
def levelWidth (leafCount : Nat) : (level : Nat) → Nat
  | 0 => leafCount
  | level + 1 => (levelWidth leafCount level + 1) / 2

/-- How many nodes the levels below a level have. -/
def levelOffset (leafCount : Nat) : (level : Nat) → Nat
  | 0 => 0
  | level + 1 => levelOffset leafCount level + levelWidth leafCount level

variable [HashSuite]

/-- Node number `k` of a level.  A last node without a neighbour is paired with itself. -/
def nodeAt (c : Challenge) (width : Nat) (blocks : List Block) : (level k : Nat) → Bytes
  | 0, k => leafHash c width (blocks.getD k Block.zero)
  | level + 1, k =>
    nodeHash c width (nodeAt c width blocks level (2 * k))
      (nodeAt c width blocks level (min (2 * k + 1) (levelWidth blocks.length level - 1)))

end MemoryHard
