import MemoryHard.Proofs.Commitment.Levels

/-!
# MemoryHard.Proofs.Commitment.Paths — the paths of a tree lead to its root

A tree reads the path of a leaf off its levels, and a climb along it hashes the same pairs as the
tree does.

* `HashTree.siblings` — the neighbours on the way up, from the levels;
* `IsOver.path?_eq` — they are the path that the tree gives;
* `IsOver.verify_path` — such a path leads to the root;
* `climbMessages_siblings_subset` — nothing is hashed on the way that the tree does not hash.
-/

namespace MemoryHard

open MemoryHard.Bytes

theorem treeDepth_of_le {n : Nat} (h : n ≤ 1) : treeDepth n = 0 := by
  rw [treeDepth, if_pos h]

theorem treeDepth_of_lt {n : Nat} (h : 1 < n) : treeDepth n = treeDepth ((n + 1) / 2) + 1 := by
  rw [treeDepth, if_neg (Nat.not_le.2 h)]

variable [HashSuite] {c : Challenge} {width : Nat}

/-- A climb goes on if the neighbour is as wide as a node, and is the node itself where there is
no other. -/
theorem climb_cons {index count : Nat} {current sibling root : Bytes} {rest : List Bytes} :
    climb c width index count current (sibling :: rest) = some root ↔
      sibling.length = width ∧ (index % 2 = 0 → index + 1 = count → sibling = current) ∧
        climb c width (index / 2) ((count + 1) / 2)
          (HashSuite.wide width (HashTree.pairMessage c index current sibling)) rest =
            some root := by
  unfold HashTree.pairMessage
  rw [climb]
  by_cases hlen : sibling.length = width
  · by_cases heven : index % 2 = 0
    · by_cases hlast : index + 1 = count ∧ sibling ≠ current
      · simp [hlen, heven, hlast]
      · have hself : index + 1 = count → sibling = current := by
          intro h
          by_cases hs : sibling = current
          · exact hs
          · exact absurd ⟨h, hs⟩ hlast
        simp only [hlen, heven, hlast, ne_eq, not_true, if_false, if_true, true_and, true_implies]
        exact ⟨fun h => ⟨hself, h⟩, fun h => h.2⟩
    · simp [hlen, heven, nodeHash]
  · simp [hlen]

theorem climbMessages_cons (index : Nat) (current sibling : Bytes) (rest : List Bytes) :
    climbMessages c width index current (sibling :: rest) =
      HashTree.pairMessage c index current sibling ::
        climbMessages c width (index / 2)
          (HashSuite.wide width (HashTree.pairMessage c index current sibling)) rest := rfl

namespace HashTree

variable {level : List Bytes}

/-- The neighbours on the way up from node `index` of a level. -/
def siblings (c : Challenge) (width : Nat) (level : List Bytes) (index : Nat) : List Bytes :=
  if level.length ≤ 1 then []
  else
    level.getD (neighbour index level.length) [] ::
      siblings c width (parents c width level) (index / 2)
termination_by level.length
decreasing_by rw [length_parents]; omega

theorem half_lt_length_parents {index : Nat} (hi : index < level.length) :
    index / 2 < (parents c width level).length := by
  rw [length_parents]
  omega

theorem length_siblings {index : Nat} :
    (siblings c width level index).length = treeDepth level.length := by
  fun_induction siblings c width level index with
  | case1 level index h => rw [treeDepth_of_le h, List.length_nil]
  | case2 level index h ih =>
    rw [List.length_cons, ih, treeDepth_of_lt (Nat.not_le.1 h), length_parents]

/-- The climb along the neighbours of a node ends at the top. -/
theorem climb_siblings (hw : width ≤ maxNodeWidth) {index : Nat} (hi : index < level.length)
    (hu : IsUniform width level) :
    climb c width index level.length (level.getD index []) (siblings c width level index) =
      some (top c width level) := by
  fun_induction siblings c width level index with
  | case1 level index h =>
    have hzero : index = 0 := by omega
    rw [hzero, climb, top_of_le (by omega)]
  | case2 level index h ih =>
    rw [climb_cons, top_of_lt (Nat.not_le.1 h), ← getD_parents_half hi, ← length_parents c width]
    refine ⟨hu.length_getD (neighbour_lt hi), fun heven hlast => ?_,
      ih (half_lt_length_parents hi) (isUniform_parents hw _)⟩
    -- where the climb pairs a node with itself, the tree does so too
    have hself : neighbour index level.length = index := by
      rw [neighbour, if_pos heven]
      omega
    rw [hself]

/-- On the climb along the neighbours of a node nothing is hashed but pairs of the levels. -/
theorem climbMessages_siblings_subset {index : Nat} (hi : index < level.length) :
    climbMessages c width index (level.getD index []) (siblings c width level index) ⊆
      (levels c width level).dropLast.flatMap (pairMessages c) := by
  fun_induction siblings c width level index with
  | case1 level index h => exact List.nil_subset _
  | case2 level index h ih =>
    have hpair := List.mem_of_getElem? (getElem?_pairMessages_half (c := c) hi)
    rw [climbMessages_cons, ← getD_parents_half hi, levels_of_lt (Nat.not_le.1 h),
      List.dropLast_cons_of_ne_nil (levels_ne_nil _), List.flatMap_cons]
    refine List.cons_subset.2 ⟨List.mem_append_left _ hpair, ?_⟩
    exact List.subset_append_of_subset_right _ (ih (half_lt_length_parents hi))

namespace IsOver

variable {t : HashTree} {blocks : List Block} (h : t.IsOver c width blocks)
include h

/-- From any level on, the neighbours that the tree looks up are those of the level. -/
theorem neighbours_eq {l index : Nat} (hi : index < level.length)
    (hl : (levels c width (blocks.map (leafHash c width))).drop l = levels c width level) :
    t.neighbours l index (levelSizes level.length) = some (siblings c width level index) := by
  fun_induction siblings c width level index generalizing l with
  | case1 level index hle =>
    rw [levelSizes_of_le hle]
    rfl
  | case2 level index hle ih =>
    have hlt := Nat.not_le.1 hle
    rw [levels_of_lt hlt] at hl
    -- from `l` on the levels are this one and those above its parents
    have hhead := congrArg List.head? hl
    have htail := congrArg List.tail hl
    rw [List.head?_drop] at hhead
    rw [List.tail_drop] at htail
    have hnode := h.node?_eq hhead (neighbour_lt hi)
    have hsibling : level[neighbour index level.length]? =
        some (level.getD (neighbour index level.length) []) := by
      rw [List.getD_eq_getElem?_getD, List.getElem?_eq_getElem (neighbour_lt hi)]
      rfl
    have hrest := ih (half_lt_length_parents hi) htail
    obtain ⟨sizes, hsizes⟩ := levelSizes_eq_cons ((level.length + 1) / 2)
    rw [length_parents, hsizes] at hrest
    rw [levelSizes_of_lt hlt, hsizes, neighbours, hnode, hsibling, hrest]
    rfl

/-- The path of a leaf holds its neighbours on the way up. -/
theorem path?_eq {i : Nat} (hi : i < blocks.length) :
    t.path? i = some ⟨siblings c width (blocks.map (leafHash c width)) i⟩ := by
  have hlen : (blocks.map (leafHash c width)).length = t.leafCount := by
    rw [List.length_map, h.leafCount_eq]
  have hleaf : i < (blocks.map (leafHash c width)).length := by rwa [List.length_map]
  have hneighbours := h.neighbours_eq (l := 0) hleaf rfl
  rw [path?, if_pos (h.leafCount_eq ▸ hi), ← hlen, hneighbours]
  rfl

theorem path?_eq_none {i : Nat} (hi : blocks.length ≤ i) : t.path? i = none := by
  rw [path?, h.leafCount_eq, if_neg (Nat.not_lt.2 hi)]

omit h in
theorem getD_leaves {i : Nat} {block : Block} (hb : blocks[i]? = some block) :
    (blocks.map (leafHash c width)).getD i [] = leafHash c width block := by
  rw [List.getD_eq_getElem?_getD, List.getElem?_map, hb]
  rfl

/-- The path of a leaf leads from its block to the root. -/
theorem verify_path {i : Nat} {block : Block} (hb : blocks[i]? = some block) {path : HashPath}
    (hp : t.path? i = some path) : path.verify c width blocks.length i block t.root = true := by
  obtain ⟨hi, -⟩ := List.getElem?_eq_some_iff.1 hb
  have hleaf : i < (blocks.map (leafHash c width)).length := by rwa [List.length_map]
  rw [h.path?_eq hi] at hp
  cases hp
  have hclimb := climb_siblings (c := c) h.le_max hleaf (isUniform_leaves h.le_max blocks)
  rw [List.length_map, getD_leaves hb, ← h.root_eq] at hclimb
  unfold HashPath.verify
  dsimp only
  rw [hclimb, length_siblings, List.length_map]
  simp [h.min_le, h.le_max, hi]

/-- When the path of a leaf is followed, nothing is hashed that the tree does not hash. -/
theorem messages_path_subset {i : Nat} {block : Block} (hb : blocks[i]? = some block)
    {path : HashPath} (hp : t.path? i = some path) :
    path.messages c width i block ⊆ messages c width blocks := by
  obtain ⟨hi, hblock⟩ := List.getElem?_eq_some_iff.1 hb
  have hleaf : i < (blocks.map (leafHash c width)).length := by rwa [List.length_map]
  rw [h.path?_eq hi] at hp
  cases hp
  unfold HashPath.messages messages
  have hclimb : climbMessages c width i _ _ ⊆ _ := climbMessages_siblings_subset hleaf
  rw [getD_leaves hb] at hclimb
  have hmem : block ∈ blocks := hblock ▸ List.getElem_mem hi
  refine List.cons_subset.2 ⟨List.mem_append_left _ (List.mem_map_of_mem hmem), ?_⟩
  exact List.subset_append_of_subset_right _ hclimb

end IsOver

end HashTree

end MemoryHard
