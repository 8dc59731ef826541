import Mathlib.Tactic.SplitIfs
import MemoryHard.Commitment.Collision

/-!
# MemoryHard.Proofs.Commitment.Levels — the levels of a hash tree

The array of a tree is the list of its levels, one after the other, and a level is what is hashed
of the one below, pair by pair.

* `HashTree.IsOver`, `exists_ofBlocks` — the tree over some blocks, however many jobs its leaves
  were hashed in;
* `IsOver.node?_eq`, `IsOver.root_eq` — its nodes and its root, from the levels;
* `parents_eq_map`, `getElem?_pairMessages` — a level from the one below.
-/

namespace MemoryHard

open MemoryHard.Bytes

/-- What succeeds for all things in a list succeeds for the list. -/
theorem mapM_eq_some_map {α β : Type} {f : α → Option β} {g : α → β} {xs : List α}
    (h : ∀ x ∈ xs, f x = some (g x)) : xs.mapM f = some (xs.map g) := by
  induction xs with
  | nil => rfl
  | cons x xs ih =>
    rw [List.mapM_cons, h x List.mem_cons_self, ih fun y hy => h y (List.mem_cons_of_mem _ hy)]
    rfl

theorem flatten_runsOf {α : Type} {n : Nat} (hn : n ≠ 0) (xs : List α) :
    (runsOf n xs).flatten = xs := by
  fun_induction runsOf n xs with
  | case1 xs h =>
    have hnil : xs = [] := List.eq_nil_of_length_eq_zero (h.resolve_left hn)
    rw [hnil]
    rfl
  | case2 xs h ih => rw [List.flatten_cons, ih, List.take_append_drop]

/-- A share of a list that is not empty is not empty. -/
theorem share_ne_zero (jobs : Nat) {count : Nat} (hcount : 0 < count) :
    (count + max jobs 1 - 1) / max jobs 1 ≠ 0 := by
  have := Nat.div_pos (a := count + max jobs 1 - 1) (b := max jobs 1) (by omega) (by omega)
  omega

/-- A place in a list of lists, counted through. -/
theorem getElem?_flatten {α : Type} {xss : List (List α)} {l k : Nat} {xs : List α}
    (hl : xss[l]? = some xs) (hk : k < xs.length) :
    xss.flatten[((xss.map List.length).take l).foldr (· + ·) 0 + k]? = xs[k]? := by
  induction xss generalizing l with
  | nil => cases hl
  | cons ys xss ih =>
    cases l with
    | zero =>
      cases hl
      rw [List.take_zero, List.foldr_nil, Nat.zero_add, List.flatten_cons,
        List.getElem?_append_left hk]
    | succ l =>
      rw [List.map_cons, List.take_succ_cons, List.foldr_cons, List.flatten_cons,
        List.getElem?_append_right (by omega)]
      have hsub : ys.length + ((xss.map List.length).take l).foldr (· + ·) 0 + k - ys.length =
          ((xss.map List.length).take l).foldr (· + ·) 0 + k := by omega
      rw [hsub]
      exact ih hl

/-! ## Sizes -/

theorem levelSizes_of_le {n : Nat} (h : n ≤ 1) : levelSizes n = [n] := by
  rw [levelSizes, if_pos h]

theorem levelSizes_of_lt {n : Nat} (h : 1 < n) :
    levelSizes n = n :: levelSizes ((n + 1) / 2) := by
  rw [levelSizes, if_neg (Nat.not_le.2 h)]

theorem levelSizes_eq_cons (n : Nat) : ∃ rest, levelSizes n = n :: rest := by
  rw [levelSizes]
  split_ifs <;> exact ⟨_, rfl⟩

namespace HashTree

variable [HashSuite] {c : Challenge} {width : Nat} {level : List Bytes}

/-! ## Levels -/

theorem levels_of_le (h : level.length ≤ 1) : levels c width level = [level] := by
  rw [levels, if_pos h]

theorem levels_of_lt (h : 1 < level.length) :
    levels c width level = level :: levels c width (parents c width level) := by
  rw [levels, if_neg (Nat.not_le.2 h)]

theorem levels_eq_cons (c : Challenge) (width : Nat) (level : List Bytes) :
    ∃ rest, levels c width level = level :: rest := by
  rw [levels]
  split_ifs <;> exact ⟨_, rfl⟩

theorem levels_ne_nil (level : List Bytes) : levels c width level ≠ [] := by
  obtain ⟨rest, hrest⟩ := levels_eq_cons c width level
  rw [hrest]
  exact List.cons_ne_nil _ _

theorem map_length_levels (level : List Bytes) :
    (levels c width level).map List.length = levelSizes level.length := by
  fun_induction levels c width level with
  | case1 level h => rw [levelSizes_of_le h, List.map_cons, List.map_nil]
  | case2 level h ih =>
    rw [levelSizes_of_lt (Nat.not_le.1 h), List.map_cons, ih, length_parents]

theorem parents_eq_map (level : List Bytes) :
    parents c width level = (pairMessages c level).map (HashSuite.wide width) := by
  fun_induction parents c width level with
  | case1 => rfl
  | case2 last => rfl
  | case3 left right rest ih => rw [pairMessages, List.map_cons, ih, nodeHash]

omit [HashSuite] in
/-- A node is paired with the one after it, the last one of a level of odd length with itself. -/
theorem getElem?_pairMessages {k : Nat} (hk : 2 * k < level.length) :
    (pairMessages c level)[k]? = some (nodeMessage c (level.getD (2 * k) [])
      (level.getD (min (2 * k + 1) (level.length - 1)) [])) := by
  fun_induction pairMessages c level generalizing k with
  | case1 => cases hk
  | case2 last =>
    -- a node that is left over has no other to be paired with
    have hzero : k = 0 := by
      rw [List.length_singleton] at hk
      omega
    rw [hzero]
    rfl
  | case3 left right rest ih =>
    cases k with
    | zero =>
      have hmin : min (2 * 0 + 1) ((left :: right :: rest).length - 1) = 1 := by
        rw [List.length_cons, List.length_cons]
        omega
      rw [hmin]
      rfl
    | succ k =>
      rw [List.length_cons, List.length_cons] at hk
      have hmin : min (2 * (k + 1) + 1) ((left :: right :: rest).length - 1) =
          min (2 * k + 1) (rest.length - 1) + 2 := by
        rw [List.length_cons, List.length_cons]
        omega
      rw [List.getElem?_cons_succ, ih (by omega), hmin]
      rfl

omit [HashSuite] in
theorem neighbour_lt {index count : Nat} (h : index < count) : neighbour index count < count := by
  unfold neighbour
  split_ifs <;> omega

/-- What is hashed of a node and its neighbour. -/
def pairMessage (c : Challenge) (index : Nat) (node sibling : Bytes) : Bytes :=
  if index % 2 = 0 then nodeMessage c node sibling else nodeMessage c sibling node

omit [HashSuite] in
/-- The pair of a node in the level above is the node with its neighbour. -/
theorem getElem?_pairMessages_half {index : Nat} (hi : index < level.length) :
    (pairMessages c level)[index / 2]? = some (pairMessage c index (level.getD index [])
      (level.getD (neighbour index level.length) [])) := by
  rw [getElem?_pairMessages (by omega)]
  unfold pairMessage neighbour
  split_ifs with heven
  · have hdouble : 2 * (index / 2) = index := by omega
    rw [hdouble]
  · have hdouble : 2 * (index / 2) = index - 1 := by omega
    have hmin : min (index - 1 + 1) (level.length - 1) = index := by omega
    rw [hdouble, hmin]

theorem getD_parents_half {index : Nat} (hi : index < level.length) :
    (parents c width level).getD (index / 2) [] = HashSuite.wide width (pairMessage c index
      (level.getD index []) (level.getD (neighbour index level.length) [])) := by
  rw [parents_eq_map, List.getD_eq_getElem?_getD, List.getElem?_map,
    getElem?_pairMessages_half hi]
  rfl

/-- All nodes of a level have the width of a node. -/
def IsUniform (width : Nat) (level : List Bytes) : Prop := ∀ node ∈ level, node.length = width

theorem isUniform_parents (hw : width ≤ maxNodeWidth) (level : List Bytes) :
    IsUniform width (parents c width level) := by
  intro node hnode
  rw [parents_eq_map] at hnode
  obtain ⟨message, -, rfl⟩ := List.mem_map.1 hnode
  exact HashSuite.length_wide width message hw

theorem isUniform_leaves (hw : width ≤ maxNodeWidth) (blocks : List Block) :
    IsUniform width (blocks.map (leafHash c width)) := by
  intro node hnode
  obtain ⟨block, -, rfl⟩ := List.mem_map.1 hnode
  exact HashSuite.length_wide width _ hw

omit [HashSuite] in
theorem IsUniform.length_getD (h : IsUniform width level) {i : Nat} (hi : i < level.length) :
    (level.getD i []).length = width := by
  rw [List.getD_eq_getElem?_getD, List.getElem?_eq_getElem hi]
  exact h _ (List.getElem_mem hi)

/-- The node at the top of the levels from a level on. -/
def top (c : Challenge) (width : Nat) (level : List Bytes) : Bytes :=
  (levels c width level).flatten.getLast?.getD []

theorem top_of_le (h : level.length = 1) : top c width level = level.getD 0 [] := by
  obtain ⟨node, rfl⟩ := List.length_eq_one_iff.1 h
  rw [top, levels_of_le (Nat.le_of_eq h)]
  rfl

theorem top_of_lt (h : 1 < level.length) :
    top c width level = top c width (parents c width level) := by
  have hlen : 0 < (parents c width level).length := by
    rw [length_parents]
    omega
  obtain ⟨rest, hrest⟩ := levels_eq_cons c width (parents c width level)
  have hne : (levels c width (parents c width level)).flatten ≠ [] := by
    rw [hrest, List.flatten_cons]
    exact List.append_ne_nil_of_left_ne_nil (List.ne_nil_of_length_pos hlen) _
  rw [top, top, levels_of_lt h, List.flatten_cons, List.getLast?_append]
  rw [List.getLast?_eq_some_getLast hne]
  rfl

theorem length_top (hw : width ≤ maxNodeWidth) (hpos : 0 < level.length)
    (hu : IsUniform width level) : (top c width level).length = width := by
  fun_induction levels c width level with
  | case1 level h =>
    rw [top_of_le (by omega)]
    exact hu.length_getD hpos
  | case2 level h ih =>
    rw [top_of_lt (Nat.not_le.1 h)]
    refine ih ?_ (isUniform_parents hw level)
    rw [length_parents]
    omega

/-! ## The tree over some blocks -/

/-- A tree over some blocks. -/
structure IsOver (t : HashTree) (c : Challenge) (width : Nat) (blocks : List Block) : Prop where
  min_le : minNodeWidth ≤ width
  le_max : width ≤ maxNodeWidth
  blocks_pos : 0 < blocks.length
  leafCount_eq : t.leafCount = blocks.length
  nodes_eq : t.nodes = (levels c width (blocks.map (leafHash c width))).flatten.toArray

theorem leafHashes_eq (c : Challenge) (width jobs : Nat) (blocks : List Block) :
    leafHashes c width jobs blocks = blocks.map (leafHash c width) := by
  unfold leafHashes leafRuns
  rcases Nat.eq_zero_or_pos blocks.length with h | h
  · rw [List.eq_nil_of_length_eq_zero h, runsOf, if_pos (.inr rfl)]
    rfl
  · rw [List.flatMap_def, ← List.map_flatten, flatten_runsOf (share_ne_zero jobs h)]

/-- A machine that refuses something makes no other tree, but none. -/
theorem ofBlocks_of_granted {t : HashTree} {blocks : List Block} {jobs : Nat} {refusals : Refusals}
    (h : ofBlocks width c blocks jobs refusals = .ok t) : ofBlocks width c blocks jobs = .ok t := by
  unfold ofBlocks at h ⊢
  split_ifs at h with hwidth hblocks hnodes
  rw [if_neg hwidth, if_neg hblocks]
  split at h
  · cases h
  · exact h

theorem isOver_of_ofBlocks {t : HashTree} {blocks : List Block} {jobs : Nat}
    (h : ofBlocks width c blocks jobs = .ok t) : t.IsOver c width blocks := by
  unfold ofBlocks at h
  split_ifs at h with hwidth hblocks
  cases h
  obtain ⟨hmin, hmax⟩ := not_or.1 hwidth
  refine ⟨Nat.not_lt.1 hmin, Nat.not_lt.1 hmax, Nat.pos_of_ne_zero hblocks, rfl, ?_⟩
  rw [leafHashes_eq]

/-- There is one tree over some blocks, in however many jobs its leaves are hashed. -/
theorem exists_ofBlocks (c : Challenge) {blocks : List Block} (hmin : minNodeWidth ≤ width)
    (hmax : width ≤ maxNodeWidth) (hblocks : blocks ≠ []) :
    ∃ t : HashTree, t.IsOver c width blocks ∧ t.width = width ∧
      ∀ jobs, ofBlocks width c blocks jobs = .ok t := by
  have hpos : 0 < blocks.length := List.length_pos_iff.2 hblocks
  refine ⟨⟨width, blocks.length, (levels c width (blocks.map (leafHash c width))).flatten.toArray⟩,
    ⟨hmin, hmax, hpos, rfl, rfl⟩, rfl, fun jobs => ?_⟩
  rw [ofBlocks, if_neg (not_or.2 ⟨Nat.not_lt.2 hmin, Nat.not_lt.2 hmax⟩),
    if_neg (Nat.ne_of_gt hpos), leafHashes_eq]
  rfl

namespace IsOver

variable {t : HashTree} {blocks : List Block} (h : t.IsOver c width blocks)
include h

theorem root_eq : t.root = top c width (blocks.map (leafHash c width)) := by
  rw [root, top, h.nodes_eq, List.back?_toArray]

theorem length_root : t.root.length = width := by
  rw [h.root_eq]
  exact length_top h.le_max (by rw [List.length_map]; exact h.blocks_pos)
    (isUniform_leaves h.le_max blocks)

theorem node?_eq {l k : Nat}
    (hl : (levels c width (blocks.map (leafHash c width)))[l]? = some level)
    (hk : k < level.length) : t.node? l k = level[k]? := by
  have hsizes : levelSizes t.leafCount =
      (levels c width (blocks.map (leafHash c width))).map List.length := by
    rw [map_length_levels, List.length_map, h.leafCount_eq]
  have hsize : (levelSizes t.leafCount)[l]? = some level.length := by
    rw [hsizes, List.getElem?_map, hl]
    rfl
  unfold node? levelStart
  rw [hsize, hsizes, h.nodes_eq]
  show (if k < level.length then _ else _) = _
  rw [if_pos hk, List.getElem?_toArray]
  exact getElem?_flatten hl hk

end IsOver

end HashTree

end MemoryHard
