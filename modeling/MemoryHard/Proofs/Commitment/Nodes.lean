import Mathlib.Data.Nat.Log
import MemoryHard.Commitment.Node
import MemoryHard.Proofs.Commitment.Paths

/-!
# MemoryHard.Proofs.Commitment.Nodes — the nodes of a tree from its leaves

A tree keeps its levels in store, and a node can be computed from the leaves below it.  Both give
the same nodes, as many on each level as there are pairs below, up to the single one at the top.

* `treeDepth_eq_clog`, `levelWidth_treeDepth`, `getElem?_levelSizes` — how many levels and how many
  nodes there are;
* `levelNodes`, `levels_eq_map` — the levels, node by node;
* `IsOver.node?_eq_nodeAt`, `IsOver.root_eq_nodeAt` — the nodes that a tree holds.
-/

namespace MemoryHard

open MemoryHard.Bytes

/-! ## How many there are -/

theorem treeDepth_eq_clog (n : Nat) : treeDepth n = Nat.clog 2 n := by
  fun_induction treeDepth n with
  | case1 n h => exact (Nat.clog_of_right_le_one h 2).symm
  | case2 n h ih =>
    rw [ih, Nat.clog_of_one_lt (by decide : 1 < 2) (Nat.not_le.1 h)]
    rfl

theorem levelWidth_succ (n l : Nat) : levelWidth n (l + 1) = levelWidth ((n + 1) / 2) l := by
  induction l with
  | zero => rfl
  | succ l ih => rw [levelWidth, ih, levelWidth]

/-- The levels up to the top are those that `levelSizes` lists. -/
theorem getElem?_levelSizes (n l : Nat) :
    (levelSizes n)[l]? = if l ≤ treeDepth n then some (levelWidth n l) else none := by
  fun_induction levelSizes n generalizing l with
  | case1 n h =>
    rw [treeDepth_of_le h]
    cases l with
    | zero => rfl
    | succ l => rfl
  | case2 n h ih =>
    rw [treeDepth_of_lt (Nat.not_le.1 h)]
    cases l with
    | zero => rfl
    | succ l =>
      rw [List.getElem?_cons_succ, ih, levelWidth_succ]
      simp only [Nat.add_le_add_iff_right]

theorem levelWidth_treeDepth {n : Nat} (hn : 0 < n) : levelWidth n (treeDepth n) = 1 := by
  fun_induction treeDepth n with
  | case1 n h => exact Nat.le_antisymm h hn
  | case2 n h ih =>
    rw [levelWidth_succ]
    exact ih (by omega)

/-- Below the top no level has a single node. -/
theorem one_lt_levelWidth {n l : Nat} (hl : l < treeDepth n) : 1 < levelWidth n l := by
  fun_induction treeDepth n generalizing l with
  | case1 n h => exact absurd hl (Nat.not_lt_zero l)
  | case2 n h ih =>
    cases l with
    | zero => exact Nat.not_le.1 h
    | succ l =>
      rw [levelWidth_succ]
      exact ih (Nat.lt_of_succ_lt_succ hl)

variable [HashSuite] {c : Challenge} {width : Nat}

namespace HashTree

variable {level : List Bytes}

/-! ## Node by node -/

/-- The level above, place by place. -/
theorem getElem?_parents {k : Nat} (hk : 2 * k < level.length) :
    (parents c width level)[k]? = some (nodeHash c width (level.getD (2 * k) [])
      (level.getD (min (2 * k + 1) (level.length - 1)) [])) := by
  rw [parents_eq_map, List.getElem?_map, getElem?_pairMessages hk]
  rfl

theorem length_nodeAt (hw : width ≤ maxNodeWidth) (blocks : List Block) (l k : Nat) :
    (nodeAt c width blocks l k).length = width := by
  cases l with
  | zero => exact HashSuite.length_wide width _ hw
  | succ l => exact HashSuite.length_wide width _ hw

/-- The nodes of a level, each from its leaves. -/
def levelNodes (c : Challenge) (width : Nat) (blocks : List Block) (l : Nat) : List Bytes :=
  (List.range (levelWidth blocks.length l)).map (nodeAt c width blocks l)

theorem length_levelNodes (c : Challenge) (width : Nat) (blocks : List Block) (l : Nat) :
    (levelNodes c width blocks l).length = levelWidth blocks.length l := by
  simp [levelNodes]

theorem getD_levelNodes {blocks : List Block} {l k : Nat} (hk : k < levelWidth blocks.length l) :
    (levelNodes c width blocks l).getD k [] = nodeAt c width blocks l k := by
  simp [levelNodes, hk]

theorem levelNodes_zero (blocks : List Block) :
    levelNodes c width blocks 0 = blocks.map (leafHash c width) := by
  apply List.ext_getElem
  · rw [length_levelNodes, List.length_map, levelWidth]
  · intro k hk hk'
    rw [List.length_map] at hk'
    simp [levelNodes, nodeAt, hk']

/-- A level is hashed of the one below. -/
theorem levelNodes_succ (blocks : List Block) (l : Nat) :
    levelNodes c width blocks (l + 1) = parents c width (levelNodes c width blocks l) := by
  apply List.ext_getElem?
  intro k
  rcases Nat.lt_or_ge k (levelWidth blocks.length (l + 1)) with hk | hk
  · have hleft : 2 * k < levelWidth blocks.length l := by
      rw [levelWidth] at hk
      omega
    have hright : min (2 * k + 1) (levelWidth blocks.length l - 1) <
        levelWidth blocks.length l := by omega
    rw [getElem?_parents (by rwa [length_levelNodes]), length_levelNodes, getD_levelNodes hleft,
      getD_levelNodes hright, levelNodes, List.getElem?_map, List.getElem?_range hk]
    rfl
  · have hlen := length_levelNodes c width blocks (l + 1)
    have hparents : (parents c width (levelNodes c width blocks l)).length =
        levelWidth blocks.length (l + 1) := by
      rw [length_parents, length_levelNodes, levelWidth]
    rw [List.getElem?_eq_none (hlen ▸ hk), List.getElem?_eq_none (hparents ▸ hk)]

/-- The levels from any one on, as many as there are up to the top. -/
theorem levels_levelNodes (blocks : List Block) (l : Nat) :
    levels c width (levelNodes c width blocks l) =
      (List.range' l (treeDepth (levelWidth blocks.length l) + 1)).map
        (levelNodes c width blocks) := by
  generalize hlevel : levelNodes c width blocks l = level
  have hlen := length_levelNodes c width blocks l
  rw [hlevel] at hlen
  fun_induction levels c width level generalizing l with
  | case1 level h =>
    rw [treeDepth_of_le (hlen ▸ h), ← hlevel]
    rfl
  | case2 level h ih =>
    have habove : levelNodes c width blocks (l + 1) = parents c width level := by
      rw [levelNodes_succ, hlevel]
    have hrest := ih (l + 1) habove (by rw [length_parents, hlen, levelWidth])
    have hdepth : treeDepth (levelWidth blocks.length l) =
        treeDepth (levelWidth blocks.length (l + 1)) + 1 :=
      treeDepth_of_lt (hlen ▸ Nat.not_le.1 h)
    rw [hrest, hdepth, ← hlevel]
    rfl

/-- The levels that a tree keeps, up to the top. -/
theorem levels_eq_map (blocks : List Block) :
    levels c width (blocks.map (leafHash c width)) =
      (List.range (treeDepth blocks.length + 1)).map (levelNodes c width blocks) := by
  rw [← levelNodes_zero, levels_levelNodes, List.range_eq_range']
  rfl

namespace IsOver

variable {t : HashTree} {blocks : List Block} (h : t.IsOver c width blocks)
include h

/-- The nodes of a tree are those computed from its leaves, and there are no others. -/
theorem node?_eq_nodeAt (l k : Nat) :
    t.node? l k = if l ≤ treeDepth blocks.length ∧ k < levelWidth blocks.length l
      then some (nodeAt c width blocks l k) else none := by
  by_cases hl : l ≤ treeDepth blocks.length
  · by_cases hk : k < levelWidth blocks.length l
    · have hlevel : (levels c width (blocks.map (leafHash c width)))[l]? =
          some (levelNodes c width blocks l) := by
        rw [levels_eq_map, List.getElem?_map, List.getElem?_range (Nat.lt_succ_of_le hl)]
        rfl
      rw [h.node?_eq hlevel (by rwa [length_levelNodes]), if_pos ⟨hl, hk⟩, levelNodes,
        List.getElem?_map, List.getElem?_range hk]
      rfl
    · simp [node?, h.leafCount_eq, getElem?_levelSizes, hl, hk]
  · simp [node?, h.leafCount_eq, getElem?_levelSizes, hl]

/-- The single node of the last level. -/
theorem root_eq_nodeAt : t.root = nodeAt c width blocks (treeDepth blocks.length) 0 := by
  have hlast : levelNodes c width blocks (treeDepth blocks.length) =
      [nodeAt c width blocks (treeDepth blocks.length) 0] := by
    rw [levelNodes, levelWidth_treeDepth h.blocks_pos]
    rfl
  rw [h.root_eq, top, levels_eq_map, List.range_succ, List.map_append, List.map_singleton, hlast,
    List.flatten_append, List.flatten_singleton, List.getLast?_concat]
  rfl

end IsOver

end HashTree

end MemoryHard
