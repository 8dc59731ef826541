import MemoryHard.Commitment.Path
import MemoryHard.Memory

/-!
# MemoryHard.Commitment.Tree — the hash tree over a memory

The nodes of a tree are kept in one array, level after level, leaves first.

* `HashTree.ofBlocks`, `HashTree.build` — the tree over some blocks, or over a memory;
* `HashTree.node?`, `HashTree.root` — its nodes and the one at the top;
* `HashTree.path?` — the path of a leaf;
* `HashTree.paths` — the paths of a set of leaves.
-/

namespace MemoryHard

open MemoryHard.Bytes

/-- The hash tree over some blocks. -/
structure HashTree where
  /-- Width of a node in bytes. -/
  width : Nat
  leafCount : Nat
  /-- The nodes, level after level. -/
  nodes : Array Bytes

/-- How many nodes each level of a tree has, leaves first. -/
def levelSizes (leafCount : Nat) : List Nat :=
  if leafCount ≤ 1 then [leafCount] else leafCount :: levelSizes ((leafCount + 1) / 2)

/-- A list in consecutive runs of `n`, the last one shorter if need be. -/
def runsOf {α : Type} (n : Nat) (xs : List α) : List (List α) :=
  if n = 0 ∨ xs.length = 0 then [] else xs.take n :: runsOf n (xs.drop n)
termination_by xs.length
decreasing_by simp only [List.length_drop]; omega

/-- A number put in its place in an ascending list, unless it is there. -/
def insertAscending (n : Nat) : List Nat → List Nat
  | [] => [n]
  | m :: rest => if n < m then n :: m :: rest else if n = m then m :: rest
    else m :: insertAscending n rest

/-- The numbers of a list in ascending order, each once. -/
def ascending (xs : List Nat) : List Nat := xs.foldr insertAscending []

namespace HashTree

/-- Where a level begins. -/
def levelStart (t : HashTree) (level : Nat) : Nat :=
  ((levelSizes t.leafCount).take level).foldr (· + ·) 0

/-- Node number `index` of a level; level zero holds the leaves. -/
def node? (t : HashTree) (level index : Nat) : Option Bytes := do
  let size ← (levelSizes t.leafCount)[level]?
  if index < size then t.nodes[t.levelStart level + index]? else none

/-- The commitment to all blocks. -/
def root (t : HashTree) : Bytes := t.nodes.back?.getD []

/-- The number of the neighbour of node `index` in a level of `count` nodes. -/
def neighbour (index count : Nat) : Nat :=
  if index % 2 = 0 then min (index + 1) (count - 1) else index - 1

/-- The neighbours on the way up from node `index` of a level; the level and those above it have
the given sizes. -/
def neighbours (t : HashTree) (level index : Nat) : List Nat → Option (List Bytes)
  | size :: next :: rest => do
    let sibling ← t.node? level (neighbour index size)
    return sibling :: (← t.neighbours (level + 1) (index / 2) (next :: rest))
  | _ => some []

/-- The path of a leaf. -/
def path? (t : HashTree) (leaf : Nat) : Option HashPath :=
  if leaf < t.leafCount then (t.neighbours 0 leaf (levelSizes t.leafCount)).map HashPath.mk
  else none

/-- The paths of some leaves, in ascending order; leaves that are not there are left out. -/
def paths (t : HashTree) (leaves : List Nat) : List (Nat × HashPath) :=
  (ascending leaves).filterMap fun leaf => (t.path? leaf).map (leaf, ·)

variable [HashSuite]

/-- The level above a level. -/
def parents (c : Challenge) (width : Nat) : List Bytes → List Bytes
  | [] => []
  | [last] => [nodeHash c width last last]
  | left :: right :: rest => nodeHash c width left right :: parents c width rest

theorem length_parents (c : Challenge) (width : Nat) (level : List Bytes) :
    (parents c width level).length = (level.length + 1) / 2 := by
  fun_induction parents c width level with
  | case1 => rfl
  | case2 last => simp
  | case3 left right rest ih => simp only [List.length_cons, ih]; omega

/-- All levels from a level on, up to the root. -/
def levels (c : Challenge) (width : Nat) (level : List Bytes) : List (List Bytes) :=
  if level.length ≤ 1 then [level] else level :: levels c width (parents c width level)
termination_by level.length
decreasing_by rw [length_parents]; omega

/-- The runs of blocks that are hashed side by side, as many as there are jobs or less. -/
def leafRuns (jobs : Nat) (blocks : List Block) : List (List Block) :=
  runsOf ((blocks.length + max jobs 1 - 1) / max jobs 1) blocks

/-- The hashes of all leaves, run by run. -/
def leafHashes (c : Challenge) (width jobs : Nat) (blocks : List Block) : List Bytes :=
  (leafRuns jobs blocks).flatMap (·.map (leafHash c width))

/-- The tree over some blocks, where there is room for its nodes and a worker for each run. -/
def ofBlocks (width : Nat) (c : Challenge) (blocks : List Block) (jobs : Nat)
    (refusals : Refusals := {}) : Except Failure HashTree :=
  if width < minNodeWidth ∨ maxNodeWidth < width then .error (.parameter (.treeNodeWidth width))
  else if blocks.length = 0 then .error (.parameter .emptyTree)
  else if refusals.nodes then
    .error (.allocation "merkle tree" ((levelSizes blocks.length).foldr (· + ·) 0 * width))
  else
    match WorkerRefusal.among (leafRuns jobs blocks).length refusals.leafWorker with
    | some refusal => .error (.thread (.leafWorkerRefused refusal.number refusal.reason))
    | none =>
      let leaves := leafHashes c width jobs blocks
      .ok ⟨width, blocks.length, (levels c width leaves).flatten.toArray⟩

/-- The tree over a memory, if the parameters are in order. -/
def build (p : Params) (c : Challenge) (m : Memory) (refusals : Refusals := {}) :
    Except Failure HashTree :=
  match p.validate with
  | .error failure => .error failure
  | .ok _ => ofBlocks p.nodeWidth c m.blocks.toList p.jobs.toNat refusals

end HashTree

end MemoryHard
