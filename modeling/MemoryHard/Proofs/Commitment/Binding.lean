import MemoryHard.Digest.Standard
import MemoryHard.Proofs.Block.Encoding
import MemoryHard.Proofs.Commitment.Paths

/-!
# MemoryHard.Proofs.Commitment.Binding — a root binds its leaves

Two climbs from one place to one root hash the same messages, level by level from the top, unless
at some level two different messages have one digest.  So a path that leads to the root of a tree
is the path of the tree, from the block of the tree.

* `climb_eq_or_collision` — two climbs;
* `HashPath.eq_or_collision` — two paths with their blocks;
* `HashTree.IsOver.path_eq_or_collision` — a path and a tree;
* `HashPath.binds_place` — a place below a root, whether it is the root of a tree or not.
-/

namespace MemoryHard

open MemoryHard.Bytes

section

variable [HashSuite] {c c' : Challenge} {width : Nat}

theorem Collision.mono {messages messages' : List Bytes} (hs : messages ⊆ messages')
    (h : Collision width messages) : Collision width messages' := by
  obtain ⟨x, hx, y, hy, hxy⟩ := h
  exact ⟨x, hs hx, y, hs hy, hxy⟩

theorem LevelCollision.collision {xs ys : List Bytes} (h : LevelCollision width xs ys) :
    Collision width (xs ++ ys) := by
  obtain ⟨level, x, y, hx, hy, hxy⟩ := h
  exact ⟨x, List.mem_append_left _ (List.mem_of_getElem? hx),
    y, List.mem_append_right _ (List.mem_of_getElem? hy), hxy⟩

theorem LevelCollision.cons {xs ys : List Bytes} (x y : Bytes) (h : LevelCollision width xs ys) :
    LevelCollision width (x :: xs) (y :: ys) := by
  obtain ⟨level, hcollision⟩ := h
  exact ⟨level + 1, hcollision⟩

/-- Two messages with one digest are the same message or a collision. -/
theorem eq_or_collision {x y : Bytes} (xs ys : List Bytes) (hlen : x.length = y.length)
    (h : HashSuite.wide width x = HashSuite.wide width y) :
    x = y ∨ LevelCollision width (x :: xs) (y :: ys) := by
  by_cases hxy : x = y
  · exact .inl hxy
  · exact .inr ⟨0, x, y, rfl, rfl, hxy, hlen, h⟩

/-! ## Messages determine what they are made of -/

omit [HashSuite] in
theorem Challenge.bytes_injective (h : c.bytes.toList = c'.bytes.toList) : c = c' := by
  cases c
  cases c'
  exact congrArg Challenge.mk (FixedBytes.ext h)

omit [HashSuite] in
theorem leafMessage_injective {b b' : Block} (h : leafMessage c b = leafMessage c' b') :
    b = b' ∧ c = c' := by
  have hlen : b.toBytes.length = b'.toBytes.length := by
    rw [Block.length_toBytes, Block.length_toBytes]
  obtain ⟨hb, hc⟩ := List.append_inj h hlen
  exact ⟨Block.toBytes_injective hb, Challenge.bytes_injective hc⟩

omit [HashSuite] in
theorem length_leafMessage (c : Challenge) (b : Block) :
    (leafMessage c b).length = Block.byteLength + 32 := by
  rw [leafMessage, List.length_append, Block.length_toBytes, c.bytes.length_eq]

omit [HashSuite] in
theorem length_nodeMessage (c : Challenge) (left right : Bytes) :
    (nodeMessage c left right).length = left.length + right.length + 32 := by
  rw [nodeMessage, List.length_append, List.length_append, c.bytes.length_eq]

omit [HashSuite] in
theorem nodeMessage_injective {x x' y y' : Bytes} (hx : x.length = x'.length)
    (hy : y.length = y'.length) (h : nodeMessage c x y = nodeMessage c' x' y') :
    x = x' ∧ y = y' ∧ c = c' := by
  have hlen : (x ++ y).length = (x' ++ y').length := by
    rw [List.length_append, List.length_append, hx, hy]
  obtain ⟨hxy, hc⟩ := List.append_inj h hlen
  obtain ⟨hx, hy⟩ := List.append_inj hxy hx
  exact ⟨hx, hy, Challenge.bytes_injective hc⟩

namespace HashTree

variable {index : Nat} {node node' sibling sibling' : Bytes}

omit [HashSuite] in
theorem length_pairMessage (index : Nat) (hn : node.length = width) (hs : sibling.length = width) :
    (pairMessage c index node sibling).length = width + width + 32 := by
  unfold pairMessage
  split_ifs <;> rw [length_nodeMessage, hn, hs]

omit [HashSuite] in
theorem pairMessage_injective (hn : node.length = node'.length)
    (hs : sibling.length = sibling'.length)
    (h : pairMessage c index node sibling = pairMessage c' index node' sibling') :
    node = node' ∧ sibling = sibling' ∧ c = c' := by
  unfold pairMessage at h
  split_ifs at h
  · exact nodeMessage_injective hn hs h
  · obtain ⟨h1, h2, h3⟩ := nodeMessage_injective hs hn h
    exact ⟨h2, h1, h3⟩

end HashTree

/-! ## Two climbs -/

/-- Two climbs from one place to one root start from the same node and meet the same neighbours,
or a collision is met on the way. -/
theorem climb_eq_or_collision (hw : width ≤ maxNodeWidth) {index count : Nat}
    {current current' root : Bytes} {path path' : List Bytes} (hlen : path.length = path'.length)
    (hc : current.length = width) (hc' : current'.length = width)
    (h : climb c width index count current path = some root)
    (h' : climb c' width index count current' path' = some root) :
    (current = current' ∧ path = path') ∨
      LevelCollision width (climbMessages c width index current path)
        (climbMessages c' width index current' path') := by
  induction path generalizing index count current current' path' with
  | nil =>
    have hnil : path' = [] := List.eq_nil_of_length_eq_zero hlen.symm
    subst hnil
    rw [climb] at h h'
    exact .inl ⟨Option.some.inj (h.trans h'.symm), rfl⟩
  | cons sibling path ih =>
    cases path' with
    | nil => cases hlen
    | cons sibling' path' =>
      obtain ⟨hs, -, h⟩ := climb_cons.1 h
      obtain ⟨hs', -, h'⟩ := climb_cons.1 h'
      rw [climbMessages_cons, climbMessages_cons]
      have hpair := HashTree.length_pairMessage (c := c) index hc hs
      have hpair' := HashTree.length_pairMessage (c := c') index hc' hs'
      rcases ih (Nat.succ.inj hlen) (HashSuite.length_wide width _ hw)
        (HashSuite.length_wide width _ hw) h h' with ⟨hdigest, hpath⟩ | hcollision
      · -- above this level nothing differs, so the two messages of this level have one digest
        rcases eq_or_collision _ _ (hpair.trans hpair'.symm) hdigest with hmessage | hcollision
        · obtain ⟨hnode, hsibling, -⟩ :=
            HashTree.pairMessage_injective (hc.trans hc'.symm) (hs.trans hs'.symm) hmessage
          exact .inl ⟨hnode, by rw [hsibling, hpath]⟩
        · exact .inr hcollision
      · exact .inr (hcollision.cons _ _)

namespace HashPath

variable {path path' : HashPath} {count index : Nat} {block block' : Block} {root : Bytes}

theorem verify_iff : path.verify c width count index block root = true ↔
    (minNodeWidth ≤ width ∧ width ≤ maxNodeWidth) ∧ index < count ∧
      path.siblings.length = treeDepth count ∧
      climb c width index count (leafHash c width block) path.siblings = some root := by
  unfold verify
  simp only [Bool.and_eq_true, decide_eq_true_eq, and_assoc]

/-- Two paths that lead from one place to one root are the same path, from the same block and for
the same challenge, or a collision is met at one level of both. -/
theorem eq_or_levelCollision (h : path.verify c width count index block root = true)
    (h' : path'.verify c' width count index block' root = true) :
    (c = c' ∧ block = block' ∧ path = path') ∨
      LevelCollision width (path.messages c width index block)
        (path'.messages c' width index block') := by
  obtain ⟨⟨-, hw⟩, -, hlen, hclimb⟩ := verify_iff.1 h
  obtain ⟨-, -, hlen', hclimb'⟩ := verify_iff.1 h'
  unfold messages
  rcases climb_eq_or_collision hw (hlen.trans hlen'.symm) (HashSuite.length_wide width _ hw)
    (HashSuite.length_wide width _ hw) hclimb hclimb' with ⟨hleaf, hpath⟩ | hcollision
  · have hmessages : (leafMessage c block).length = (leafMessage c' block').length := by
      rw [length_leafMessage, length_leafMessage]
    rcases MemoryHard.eq_or_collision _ _ hmessages hleaf with hmessage | hcollision
    · obtain ⟨hblock, hchallenge⟩ := leafMessage_injective hmessage
      cases path
      cases path'
      exact .inl ⟨hchallenge, hblock, congrArg HashPath.mk hpath⟩
    · exact .inr hcollision
  · exact .inr (hcollision.cons _ _)

theorem eq_or_collision (h : path.verify c width count index block root = true)
    (h' : path'.verify c' width count index block' root = true) :
    (c = c' ∧ block = block' ∧ path = path') ∨
      Collision width (path.messages c width index block ++
        path'.messages c' width index block') :=
  (eq_or_levelCollision h h').imp_right LevelCollision.collision

end HashPath

/-! ## A path and a tree -/

/-- A path that leads to the root of a tree is the path of the tree, from the block of the tree,
or a collision is met. -/
theorem HashTree.IsOver.path_eq_or_collision {t : HashTree} {blocks : List Block}
    (ht : t.IsOver c width blocks) {path : HashPath} {i : Nat} {block : Block}
    (h : path.verify c width blocks.length i block t.root = true) :
    (blocks[i]? = some block ∧ t.path? i = some path) ∨
      Collision width (HashTree.messages c width blocks ++ path.messages c width i block) := by
  obtain ⟨-, hi, -⟩ := HashPath.verify_iff.1 h
  have hb := List.getElem?_eq_getElem hi
  have hp := ht.path?_eq hi
  rcases HashPath.eq_or_collision (ht.verify_path hb hp) h with ⟨-, hblock, hpath⟩ | hcollision
  · exact .inl ⟨hblock ▸ hb, hpath ▸ hp⟩
  · refine .inr (hcollision.mono ?_)
    exact List.append_subset.2 ⟨List.subset_append_of_subset_left _ (ht.messages_path_subset hb hp),
      List.subset_append_right _ _⟩

/-! ## A place below a root -/

/-- Below any root a place has one challenge, one block and one path, unless two paths that lead
from there to the root hash different messages to one digest at the same level.  Below the root of
a tree, they are those of the tree. -/
theorem HashPath.binds_place (width : Nat) :
    (∀ (count index : Nat) (root : Bytes) (c c' : Challenge) (block block' : Block)
        (path path' : HashPath),
      path.verify c width count index block root = true →
      path'.verify c' width count index block' root = true →
        (c = c' ∧ block = block' ∧ path = path') ∨
          LevelCollision width (path.messages c width index block)
            (path'.messages c' width index block')) ∧
    ∀ (c c' : Challenge) (blocks : List Block) (jobs : Nat) (t : HashTree) (index : Nat)
        (block : Block) (path : HashPath),
      HashTree.ofBlocks width c blocks jobs = .ok t →
      path.verify c' width blocks.length index block t.root = true →
        ∃ leaf own, blocks[index]? = some leaf ∧ t.path? index = some own ∧
          ((c' = c ∧ block = leaf ∧ path = own) ∨
            LevelCollision width (path.messages c' width index block)
              (own.messages c width index leaf)) := by
  refine ⟨fun _ _ _ _ _ _ _ _ _ h h' => eq_or_levelCollision h h', ?_⟩
  intro c c' blocks jobs t index block path ht h
  have hover := HashTree.isOver_of_ofBlocks ht
  obtain ⟨-, hindex, -⟩ := verify_iff.1 h
  have hleaf := List.getElem?_eq_getElem hindex
  have hown := hover.path?_eq hindex
  exact ⟨_, _, hleaf, hown, eq_or_levelCollision h (hover.verify_path hleaf hown)⟩

end

theorem HashPath.binds_place_three :
    let c : Challenge := .ofHeader [1, 2, 3]
    let blocks : List Block := [.zero, .zero, .zero]
    ∃ (t : HashTree) (path : HashPath), HashTree.ofBlocks 8 c blocks 1 = .ok t ∧
      path.verify c 8 3 2 .zero t.root = true ∧
      ((c = c ∧ Block.zero = .zero ∧ path = path) ∨
        LevelCollision 8 (path.messages c 8 2 .zero) (path.messages c 8 2 .zero)) ∧
      ∃ leaf own, blocks[2]? = some leaf ∧ t.path? 2 = some own ∧
        ((c = c ∧ .zero = leaf ∧ path = own) ∨
          LevelCollision 8 (path.messages c 8 2 .zero) (own.messages c 8 2 leaf)) := by
  intro c blocks
  let t : HashTree :=
    ⟨8, 3, (HashTree.levels c 8 (HashTree.leafHashes c 8 1 blocks)).flatten.toArray⟩
  have ht : HashTree.ofBlocks 8 c blocks 1 = .ok t := rfl
  have hover := HashTree.isOver_of_ofBlocks ht
  have hpath := hover.path?_eq (by decide : 2 < blocks.length)
  have hverify := hover.verify_path (rfl : blocks[2]? = some .zero) hpath
  exact ⟨t, _, ht, hverify,
    (HashPath.binds_place 8).1 3 2 t.root c c .zero .zero _ _ hverify hverify,
    (HashPath.binds_place 8).2 c c blocks 1 t 2 .zero _ ht hverify⟩

end MemoryHard
