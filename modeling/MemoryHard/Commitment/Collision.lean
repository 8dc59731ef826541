import MemoryHard.Commitment.Tree

/-!
# MemoryHard.Commitment.Collision — what is hashed, and collisions

A commitment binds as long as nobody finds two messages with one digest.  To say so without
leaving open which messages, those that are hashed on the way are listed.

* `Collision` — two messages of some list have the same length and the same digest;
* `LevelCollision` — so have the messages at one place of two lists;
* `HashPath.messages` — what is hashed when a path is followed;
* `HashTree.messages` — what is hashed when a tree is built.
-/

namespace MemoryHard

open MemoryHard.Bytes

variable [HashSuite]

/-- Two different messages of equal length among `messages` have the same digest. -/
def Collision (width : Nat) (messages : List Bytes) : Prop :=
  ∃ x ∈ messages, ∃ y ∈ messages,
    x ≠ y ∧ x.length = y.length ∧ HashSuite.wide width x = HashSuite.wide width y

/-- At one place of two lists stand two different messages of equal length with the same digest. -/
def LevelCollision (width : Nat) (messages messages' : List Bytes) : Prop :=
  ∃ (level : Nat) (x y : Bytes), messages[level]? = some x ∧ messages'[level]? = some y ∧
    x ≠ y ∧ x.length = y.length ∧ HashSuite.wide width x = HashSuite.wide width y

/-- What is hashed on the climb from a node along its neighbours. -/
def climbMessages (c : Challenge) (width index : Nat) (current : Bytes) :
    List Bytes → List Bytes
  | [] => []
  | sibling :: rest =>
    let message :=
      if index % 2 = 0 then nodeMessage c current sibling else nodeMessage c sibling current
    message :: climbMessages c width (index / 2) (HashSuite.wide width message) rest

/-- What is hashed when a path is followed from a block. -/
def HashPath.messages (path : HashPath) (c : Challenge) (width index : Nat) (block : Block) :
    List Bytes :=
  leafMessage c block :: climbMessages c width index (leafHash c width block) path.siblings

namespace HashTree

/-- What is hashed for the level above a level. -/
def pairMessages (c : Challenge) : List Bytes → List Bytes
  | [] => []
  | [last] => [nodeMessage c last last]
  | left :: right :: rest => nodeMessage c left right :: pairMessages c rest

/-- What is hashed when the tree over some blocks is built. -/
def messages (c : Challenge) (width : Nat) (blocks : List Block) : List Bytes :=
  blocks.map (leafMessage c) ++
    ((levels c width (blocks.map (leafHash c width))).dropLast.flatMap (pairMessages c))

end HashTree

end MemoryHard
