import MemoryHard.Commitment.Tree
import MemoryHard.Geometry.Checked

/-!
# MemoryHard.Commitment.Storage — a hash tree in one string of bytes

The nodes of a tree can stand side by side in one string of bytes, level after level, leaves
first.  The string has its full length from the start.  Workers write the leaves, each in a part of
the string, and then every level is written from what stands before it.  A slice that does not lie
in its string has no value, nor has a loop that is not done after the rounds it is given.

* `Span`, `layOut` — where the levels stand;
* `StoredTree` — the tree, with `node?`, `root?` and `path?` for what is looked up in it;
* `writePart`, `writeLeaves` — the leaves, by one worker and by all;
* `writeLevel?`, `writeLevels?` — a level from the one below it, and all levels;
* `StoredTree.ofBlocks?` — the tree over some blocks.
-/

namespace MemoryHard

open MemoryHard.Bytes

/-- `length` bytes from place `start` on, if there are as many. -/
def Bytes.slice? (b : Bytes) (start length : Nat) : Option Bytes :=
  if start + length ≤ b.length then some ((b.drop start).take length) else none

/-- Nodes that stand side by side. -/
structure Span where
  /-- The number of the first of them in the whole storage. -/
  start : Nat
  count : Nat
deriving DecidableEq

/-- The levels from node number `start` on, the first of them with `count` nodes, and where the
last one ends.  Each round lays out a level, and a level of one node is the last. -/
def layOut : (rounds start count : Nat) → Option (List Span × Nat)
  | 0, _, _ => none
  | rounds + 1, start, count =>
    if count = 1 then some ([⟨start, count⟩], start + count)
    else (layOut rounds (start + count) ((count + 1) / 2)).map fun above =>
      (⟨start, count⟩ :: above.1, above.2)

/-- A hash tree over some blocks in one string of bytes. -/
structure StoredTree where
  /-- Width of a node in bytes. -/
  width : Nat
  leafCount : Nat
  /-- Where the levels stand, leaves first. -/
  levels : List Span
  /-- The nodes, level after level. -/
  bytes : Bytes

namespace StoredTree

/-- Node number `index` of a level; level zero holds the leaves. -/
def node? (t : StoredTree) (level index : Nat) : Option Bytes := do
  let span ← t.levels[level]?
  if span.count ≤ index then none
  else slice? t.bytes ((span.start + index) * t.width) t.width

/-- The commitment to all blocks, which is the first node of the last level. -/
def root? (t : StoredTree) : Option Bytes := do
  let top ← t.levels.getLast?
  slice? t.bytes (top.start * t.width) t.width

/-- The neighbours on the way up from node `index` of a level, along this level and those above
it. -/
def neighbours (t : StoredTree) (level index : Nat) : List Span → Option (List Bytes)
  | span :: above :: rest => do
    let sibling ← t.node? level (HashTree.neighbour index span.count)
    return sibling :: (← t.neighbours (level + 1) (index / 2) (above :: rest))
  | _ => some []

/-- The path of a leaf. -/
def path? (t : StoredTree) (leaf : Nat) : Option HashPath :=
  if t.leafCount ≤ leaf then none else (t.neighbours 0 leaf t.levels).map HashPath.mk

end StoredTree

/-- The things in the first list changed by those in the second, one by one; what has no
counterpart stays as it is. -/
def overwriteWith {α β : Type} (f : α → β → α) : List α → List β → List α
  | x :: xs, y :: ys => f x y :: overwriteWith f xs ys
  | xs, _ => xs

variable [HashSuite]

/-- A part of the leaves, with the hashes of some blocks written over its nodes. -/
def writePart (c : Challenge) (width : Nat) (part : Bytes) (blocks : List Block) : Bytes :=
  (overwriteWith (fun node block => if node.length = width then leafHash c width block else node)
    (runsOf width part) blocks).flatten

/-- The leaves with the hashes of all blocks, by as many workers as there are jobs.  Both are cut
into runs, and each worker has a run of either kind. -/
def writeLeaves (c : Challenge) (width jobs : Nat) (leaves : Bytes) (blocks : List Block) :
    Bytes :=
  let jobs := max jobs 1
  let share := (blocks.length + jobs - 1) / jobs
  (overwriteWith (writePart c width) (runsOf (share * width) leaves) (runsOf share blocks)).flatten

/-- Node number `k` of a level, from the level below it in the bytes that stand before. -/
def parent? (c : Challenge) (width : Nat) (lower : Bytes) (children : Span) (k : Nat) :
    Option Bytes := do
  let last ← Word.sub? children.count 1
  let left ← slice? lower ((children.start + 2 * k) * width) width
  let right ← slice? lower ((children.start + min (2 * k + 1) last) * width) width
  return nodeHash c width left right

/-- The bytes with a level written into them. -/
def writeLevel? (c : Challenge) (width : Nat) (bytes : Bytes) (children parents : Span) :
    Option Bytes := do
  let lower ← slice? bytes 0 (parents.start * width)
  let level ← slice? bytes (parents.start * width) (parents.count * width)
  let nodes ← (List.range parents.count).mapM (parent? c width lower children)
  return lower ++ nodes.flatten ++ bytes.drop (lower.length + level.length)

/-- The bytes with all levels above the first written into them, from bottom to top. -/
def writeLevels? (c : Challenge) (width : Nat) : List Span → Bytes → Option Bytes
  | children :: parents :: rest, bytes => do
    writeLevels? c width (parents :: rest) (← writeLevel? c width bytes children parents)
  | _, bytes => some bytes

/-- The tree over some blocks, with so many rounds to lay out its levels. -/
def StoredTree.ofBlocks? (rounds width : Nat) (c : Challenge) (blocks : List Block) (jobs : Nat) :
    Option (Except Failure StoredTree) := do
  if width < minNodeWidth ∨ maxNodeWidth < width then
    return .error (.parameter (.treeNodeWidth width))
  else if blocks.length = 0 then return .error (.parameter .emptyTree)
  else
    let levels ← layOut rounds 0 blocks.length
    let blank := List.replicate (levels.2 * width) 0
    let leaves ← slice? blank 0 (blocks.length * width)
    let bytes ← writeLevels? c width levels.1
      (writeLeaves c width jobs leaves blocks ++ blank.drop leaves.length)
    return .ok ⟨width, blocks.length, levels.1, bytes⟩

end MemoryHard
