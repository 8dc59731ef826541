import MemoryHard.Commitment.Storage
import MemoryHard.Digest.Standard
import MemoryHard.Proofs.Commitment.Nodes
import MemoryHard.Proofs.Geometry.Checked

/-!
# MemoryHard.Proofs.Commitment.Storage — the tree in one string of bytes

Cutting the string at nodes is cutting the list of nodes, since all of them are equally wide.  So
the workers write the leaves that a single one would write, every level is written where the one
below it ends, and nothing is read that has not been written.

* `IsUniform.slice?_flatten`, `IsUniform.slice?_node` — what is cut out of the string;
* `layOut_eq` — where the levels stand, and how many rounds it takes to find out;
* `writeLeaves_eq`, `writeLevel?_eq`, `writeLevels?_eq` — what is written;
* `HashTree.stored`, `StoredTree.ofBlocks?_eq` — the string holds the nodes of the tree;
* `node?_stored`, `root?_stored`, `path?_stored` — and what is looked up in it is what the tree
  gives.
-/

namespace MemoryHard

open MemoryHard.Bytes

/-! ## Strings of nodes -/

namespace HashTree

theorem isUniform_cons {width : Nat} {node : Bytes} {rest : List Bytes} :
    IsUniform width (node :: rest) ↔ node.length = width ∧ IsUniform width rest :=
  List.forall_mem_cons

namespace IsUniform

variable {width : Nat} {nodes : List Bytes} (h : IsUniform width nodes)
include h

theorem drop (k : Nat) : IsUniform width (nodes.drop k) :=
  fun node hnode => h node (List.mem_of_mem_drop hnode)

theorem take (k : Nat) : IsUniform width (nodes.take k) :=
  fun node hnode => h node (List.mem_of_mem_take hnode)

theorem append {nodes' : List Bytes} (h' : IsUniform width nodes') :
    IsUniform width (nodes ++ nodes') :=
  List.forall_mem_append.2 ⟨h, h'⟩

theorem length_flatten : nodes.flatten.length = nodes.length * width := by
  induction nodes with
  | nil => simp
  | cons node rest ih =>
    obtain ⟨hnode, hrest⟩ := isUniform_cons.1 h
    rw [List.flatten_cons, List.length_append, hnode, ih hrest, List.length_cons, Nat.succ_mul,
      Nat.add_comm]

theorem take_flatten (k : Nat) : nodes.flatten.take (k * width) = (nodes.take k).flatten := by
  induction nodes generalizing k with
  | nil => simp
  | cons node rest ih =>
    cases k with
    | zero => simp
    | succ k =>
      obtain ⟨hnode, hrest⟩ := isUniform_cons.1 h
      have hsplit : (k + 1) * width = node.length + k * width := by
        rw [Nat.succ_mul, hnode, Nat.add_comm]
      rw [List.flatten_cons, hsplit, List.take_length_add_append, List.take_succ_cons,
        List.flatten_cons, ih hrest]

theorem drop_flatten (k : Nat) : nodes.flatten.drop (k * width) = (nodes.drop k).flatten := by
  have hwhole : nodes.flatten.take (k * width) ++ nodes.flatten.drop (k * width) =
      (nodes.take k).flatten ++ (nodes.drop k).flatten := by
    rw [List.take_append_drop, ← List.flatten_append, List.take_append_drop]
  rw [h.take_flatten] at hwhole
  exact List.append_cancel_left hwhole

theorem slice?_flatten (start count : Nat) (hle : start + count ≤ nodes.length) :
    slice? nodes.flatten (start * width) (count * width) =
      some ((nodes.drop start).take count).flatten := by
  have hlen : start * width + count * width ≤ nodes.flatten.length := by
    rw [h.length_flatten, ← Nat.add_mul]
    exact Nat.mul_le_mul_right width hle
  rw [slice?, if_pos hlen, h.drop_flatten, (h.drop start).take_flatten]

/-- A node is found in the string where it stands in the list, and nowhere else. -/
theorem slice?_node (hw : 0 < width) (k : Nat) :
    slice? nodes.flatten (k * width) width = nodes[k]? := by
  rcases Nat.lt_or_ge k nodes.length with hk | hk
  · have hcut := h.slice?_flatten k 1 hk
    rw [Nat.one_mul] at hcut
    rw [hcut, List.drop_eq_getElem_cons hk, List.getElem?_eq_getElem hk, List.take_succ_cons,
      List.take_zero, List.flatten_singleton]
  · have hlen : nodes.flatten.length < k * width + width := by
      rw [h.length_flatten, ← Nat.succ_mul]
      exact Nat.mul_lt_mul_of_pos_right (Nat.lt_succ_of_le hk) hw
    rw [slice?, if_neg (Nat.not_le.2 hlen), List.getElem?_eq_none hk]

end IsUniform

end HashTree

/-! ## Where the levels stand -/

/-- Levels of so many nodes, one behind the other. -/
def spansFrom (start : Nat) : List Nat → List Span
  | [] => []
  | count :: rest => ⟨start, count⟩ :: spansFrom (start + count) rest

theorem levelOffset_succ (n l : Nat) :
    levelOffset n (l + 1) = n + levelOffset ((n + 1) / 2) l := by
  induction l with
  | zero => simp [levelOffset, levelWidth]
  | succ l ih => rw [levelOffset, ih, levelWidth_succ, levelOffset, Nat.add_assoc]

/-- A level begins where those below it end. -/
theorem foldr_take_levelSizes {n l : Nat} (hl : l ≤ treeDepth n) :
    ((levelSizes n).take l).foldr (· + ·) 0 = levelOffset n l := by
  fun_induction levelSizes n generalizing l with
  | case1 n h =>
    rw [treeDepth_of_le h] at hl
    rw [Nat.le_zero.1 hl]
    rfl
  | case2 n h ih =>
    rw [treeDepth_of_lt (Nat.not_le.1 h)] at hl
    cases l with
    | zero => rfl
    | succ l =>
      rw [List.take_succ_cons, List.foldr_cons, ih (Nat.le_of_succ_le_succ hl), levelOffset_succ]

theorem spansFrom_levelSizes (start n : Nat) :
    spansFrom start (levelSizes n) = (List.range (treeDepth n + 1)).map fun l =>
      ⟨start + levelOffset n l, levelWidth n l⟩ := by
  fun_induction levelSizes n generalizing start with
  | case1 n h =>
    rw [treeDepth_of_le h]
    rfl
  | case2 n h ih =>
    rw [treeDepth_of_lt (Nat.not_le.1 h), spansFrom, ih]
    conv_rhs => rw [List.range_succ_eq_map, List.map_cons, List.map_map]
    congr 1
    apply List.map_congr_left
    intro l _
    simp only [Function.comp_apply, levelOffset_succ n, levelWidth_succ, Nat.add_assoc]

/-- The levels are laid out as soon as there is a round for each of them. -/
theorem layOut_eq (rounds start : Nat) {n : Nat} (hn : 0 < n) :
    layOut rounds start n = if treeDepth n < rounds then
      some (spansFrom start (levelSizes n), start + levelOffset n (treeDepth n + 1)) else none := by
  induction rounds generalizing start n with
  | zero => rfl
  | succ rounds ih =>
    rcases Nat.eq_or_lt_of_le hn with hone | hmore
    · subst hone
      simp [layOut, treeDepth_of_le, levelSizes_of_le, spansFrom, levelOffset, levelWidth]
    · rw [layOut, if_neg (by omega), ih _ (by omega), treeDepth_of_lt hmore,
        levelSizes_of_lt hmore, levelOffset_succ n, spansFrom, ← Nat.add_assoc]
      simp only [Nat.add_lt_add_iff_right]
      split_ifs <;> rfl

/-! ## Writing -/

theorem overwriteWith_eq_map {α β : Type} {f : α → β → α} {g : β → α} {xs : List α} {ys : List β}
    (hlen : xs.length = ys.length) (hf : ∀ x ∈ xs, ∀ y, f x y = g y) :
    overwriteWith f xs ys = ys.map g := by
  induction xs generalizing ys with
  | nil =>
    rw [List.eq_nil_of_length_eq_zero hlen.symm]
    rfl
  | cons x xs ih =>
    obtain ⟨y, ys, rfl⟩ := List.exists_cons_of_length_eq_add_one hlen.symm
    rw [overwriteWith, hf x List.mem_cons_self, List.map_cons,
      ih (Nat.succ.inj hlen) fun x' hx' => hf x' (List.mem_cons_of_mem _ hx')]

theorem runsOf_cons {α : Type} {n : Nat} (hn : n ≠ 0) {xs : List α} (hxs : xs.length ≠ 0) :
    runsOf n xs = xs.take n :: runsOf n (xs.drop n) := by
  rw [runsOf, if_neg (not_or.2 ⟨hn, hxs⟩)]

theorem HashTree.IsUniform.runsOf_flatten {width : Nat} {nodes : List Bytes}
    (h : IsUniform width nodes) (hw : 0 < width) : runsOf width nodes.flatten = nodes := by
  induction nodes with
  | nil => rw [runsOf, if_pos (.inr rfl)]
  | cons node rest ih =>
    obtain ⟨hnode, hrest⟩ := isUniform_cons.1 h
    rw [List.flatten_cons, runsOf_cons hw.ne' (by rw [List.length_append]; omega),
      List.take_left' hnode, List.drop_left' hnode, ih hrest]

section

variable [HashSuite] {c : Challenge} {width : Nat}

theorem writePart_eq (hw : 0 < width) {nodes : List Bytes} (h : HashTree.IsUniform width nodes)
    {blocks : List Block} (hlen : nodes.length = blocks.length) :
    writePart c width nodes.flatten blocks = (blocks.map (leafHash c width)).flatten := by
  rw [writePart, h.runsOf_flatten hw, overwriteWith_eq_map hlen]
  intro node hnode block
  rw [if_pos (h node hnode)]

/-- However many workers there are, the leaves come out the same. -/
theorem writeLeaves_eq (hw : 0 < width) (jobs : Nat) {nodes : List Bytes}
    (h : HashTree.IsUniform width nodes) {blocks : List Block}
    (hlen : nodes.length = blocks.length) (hpos : 0 < blocks.length) :
    writeLeaves c width jobs nodes.flatten blocks = (blocks.map (leafHash c width)).flatten := by
  unfold writeLeaves
  dsimp only
  have hshare := share_ne_zero jobs hpos
  -- any share will do that is not empty
  generalize (blocks.length + max jobs 1 - 1) / max jobs 1 = share at hshare
  clear hpos
  fun_induction runsOf share blocks generalizing nodes with
  | case1 blocks hnil =>
    have hblocks : blocks = [] := List.eq_nil_of_length_eq_zero (hnil.resolve_left hshare)
    have hnodes : nodes = [] := List.eq_nil_of_length_eq_zero (by rw [hlen, hblocks]; rfl)
    rw [hblocks, hnodes, runsOf, if_pos (.inr rfl)]
    rfl
  | case2 blocks hcons ih =>
    obtain ⟨-, hblocks⟩ := not_or.1 hcons
    have hnodes : nodes.flatten.length ≠ 0 := by
      rw [h.length_flatten, hlen]
      exact Nat.mul_ne_zero hblocks hw.ne'
    have hrest := ih (h.drop share) (by rw [List.length_drop, List.length_drop, hlen])
    rw [runsOf_cons (Nat.mul_ne_zero hshare hw.ne') hnodes, h.take_flatten, h.drop_flatten,
      overwriteWith, List.flatten_cons, hrest, writePart_eq hw (h.take share) (by simp [hlen]),
      ← List.flatten_append, ← List.map_append, List.take_append_drop]

namespace HashTree

variable {done level rest : List Bytes}

theorem parent?_eq (hw : 0 < width) (hdone : IsUniform width done) (hlevel : IsUniform width level)
    {k : Nat} (hk : 2 * k < level.length) :
    parent? c width (done ++ level).flatten ⟨done.length, level.length⟩ k =
      some ((parents c width level).getD k []) := by
  have hlower := hdone.append hlevel
  have hnode (i : Nat) (hi : i < level.length) :
      (done ++ level)[done.length + i]? = some (level.getD i []) := by
    rw [List.getElem?_append_right (Nat.le_add_right _ _), Nat.add_sub_cancel_left,
      List.getElem?_eq_getElem hi, List.getD_eq_getElem?_getD, List.getElem?_eq_getElem hi]
    rfl
  rw [List.getD_eq_getElem?_getD, getElem?_parents hk]
  unfold parent?
  rw [Word.sub?_eq_some (show 1 ≤ level.length by omega)]
  dsimp only [Option.bind_eq_bind, Option.bind_some]
  rw [hlower.slice?_node hw, hlower.slice?_node hw, hnode _ hk,
    hnode _ (show min (2 * k + 1) (level.length - 1) < level.length by omega)]
  rfl

theorem mapM_parent?_eq (hw : 0 < width) (hdone : IsUniform width done)
    (hlevel : IsUniform width level) :
    (List.range ((level.length + 1) / 2)).mapM
        (parent? c width (done ++ level).flatten ⟨done.length, level.length⟩) =
      some (parents c width level) := by
  have hparent (k : Nat) (hk : k ∈ List.range ((level.length + 1) / 2)) :=
    parent?_eq (c := c) hw hdone hlevel (k := k) (by
      rw [List.mem_range] at hk
      omega)
  rw [mapM_eq_some_map hparent]
  congr 1
  apply List.ext_getElem
  · simp [length_parents]
  · intro k _ hk
    simp [hk]

/-- A level is written where the one below it ends. -/
theorem writeLevel?_eq (hw : 0 < width) (hdone : IsUniform width done)
    (hlevel : IsUniform width level) (hrest : IsUniform width rest)
    (hlen : (level.length + 1) / 2 ≤ rest.length) :
    writeLevel? c width (done ++ level ++ rest).flatten ⟨done.length, level.length⟩
        ⟨done.length + level.length, (level.length + 1) / 2⟩ =
      some (done ++ level ++ parents c width level ++
        rest.drop ((level.length + 1) / 2)).flatten := by
  have hlower := hdone.append hlevel
  have hall := hlower.append hrest
  -- the string is cut where the level below ends, and again where the new one does
  have hbelow : slice? (done ++ level ++ rest).flatten 0 ((done.length + level.length) * width) =
      some (done ++ level).flatten := by
    have hcut := hall.slice?_flatten 0 (done.length + level.length) (by simp)
    rw [Nat.zero_mul] at hcut
    rw [hcut, List.drop_zero, List.take_left' List.length_append]
  have hplace : slice? (done ++ level ++ rest).flatten ((done.length + level.length) * width)
      ((level.length + 1) / 2 * width) =
        some (rest.take ((level.length + 1) / 2)).flatten := by
    rw [hall.slice?_flatten _ _ (by simp; omega), List.drop_left' List.length_append]
  have hbehind : (done ++ level ++ rest).flatten.drop
      ((done ++ level).flatten.length + (rest.take ((level.length + 1) / 2)).flatten.length) =
        (rest.drop ((level.length + 1) / 2)).flatten := by
    rw [hlower.length_flatten, (hrest.take _).length_flatten, List.length_append,
      List.length_take, Nat.min_eq_left hlen, ← Nat.add_mul, hall.drop_flatten, ← List.drop_drop,
      List.drop_left' List.length_append]
  unfold writeLevel?
  dsimp only
  rw [hbelow, hplace]
  dsimp only [Option.bind_eq_bind, Option.bind_some]
  rw [mapM_parent?_eq hw hdone hlevel, Option.bind_some, hbehind, ← List.flatten_append,
    ← List.flatten_append]
  rfl

/-- All levels above one are written, up to the top. -/
theorem writeLevels?_eq (hw : 0 < width) (hmax : width ≤ maxNodeWidth)
    (done level rest : List Bytes) (hdone : IsUniform width done) (hlevel : IsUniform width level)
    (hrest : IsUniform width rest) (hpos : 0 < level.length)
    (hlen : level.length + rest.length = levelOffset level.length (treeDepth level.length + 1)) :
    writeLevels? c width (spansFrom done.length (levelSizes level.length))
        (done ++ level ++ rest).flatten =
      some (done ++ (levels c width level).flatten).flatten := by
  fun_induction levels c width level generalizing done rest with
  | case1 level h =>
    have hrestNil : rest = [] := by
      rw [treeDepth_of_le h] at hlen
      simp only [levelOffset, levelWidth] at hlen
      exact List.eq_nil_of_length_eq_zero (by omega)
    rw [levelSizes_of_le h, hrestNil, List.append_nil, List.flatten_singleton]
    rfl
  | case2 level h ih =>
    have hmore := Nat.not_le.1 h
    rw [treeDepth_of_lt hmore, levelOffset_succ] at hlen
    have hoffset := levelOffset_succ ((level.length + 1) / 2) (treeDepth ((level.length + 1) / 2))
    have hwrite := writeLevel?_eq (c := c) hw hdone hlevel hrest (by omega)
    -- the level is now one of those that are done, and its parents are the level at hand
    have hgo := ih _ _ (hdone.append hlevel) (isUniform_parents hmax level)
      (hrest.drop ((level.length + 1) / 2)) (by rw [length_parents]; omega)
      (by rw [length_parents, List.length_drop]; omega)
    obtain ⟨sizes, hsizes⟩ := levelSizes_eq_cons ((level.length + 1) / 2)
    rw [length_parents, hsizes, List.length_append] at hgo
    rw [levelSizes_of_lt hmore, hsizes, spansFrom, spansFrom, writeLevels?, hwrite,
      List.flatten_cons, ← List.append_assoc]
    exact hgo

/-! ## The tree -/

/-- The tree with its nodes in one string of bytes, level after level. -/
def stored (t : HashTree) : StoredTree where
  width := t.width
  leafCount := t.leafCount
  levels := (List.range (treeDepth t.leafCount + 1)).map fun l =>
    ⟨levelOffset t.leafCount l, levelWidth t.leafCount l⟩
  bytes := t.nodes.toList.flatten

omit [HashSuite] in
theorem levels_stored (t : HashTree) : t.stored.levels = spansFrom 0 (levelSizes t.leafCount) := by
  simp [stored, spansFrom_levelSizes]

end HashTree

/-- Into a string of its full length, all of it blank at first, the nodes of all levels are
written. -/
theorem exists_leaves (hw : 0 < width) (hmax : width ≤ maxNodeWidth) {blocks : List Block}
    (hpos : 0 < blocks.length) (jobs : Nat) {blank : Bytes}
    (hblank : blank = List.replicate
      (levelOffset blocks.length (treeDepth blocks.length + 1) * width) 0) :
    ∃ leaves, slice? blank 0 (blocks.length * width) = some leaves ∧
      writeLevels? c width (spansFrom 0 (levelSizes blocks.length))
          (writeLeaves c width jobs leaves blocks ++ blank.drop leaves.length) =
        some (HashTree.levels c width (blocks.map (leafHash c width))).flatten.flatten := by
  generalize htotal : levelOffset blocks.length (treeDepth blocks.length + 1) = total at hblank
  have hle : blocks.length ≤ total := by
    rw [← htotal, levelOffset_succ]
    exact Nat.le_add_right _ _
  -- the blank string is one of blank nodes
  obtain ⟨nodes, hnodes, hcount, hflatten⟩ : ∃ nodes : List Bytes, HashTree.IsUniform width nodes ∧
      nodes.length = total ∧ blank = nodes.flatten := by
    refine ⟨List.replicate total (List.replicate width 0), ?_, List.length_replicate, ?_⟩
    · intro node hnode
      rw [List.eq_of_mem_replicate hnode, List.length_replicate]
    · rw [hblank, List.flatten_replicate_replicate]
  have hlen : (nodes.take blocks.length).length = blocks.length := by
    rw [List.length_take, hcount, Nat.min_eq_left hle]
  have hleaves := hnodes.slice?_flatten 0 blocks.length (by rwa [Nat.zero_add, hcount])
  have hwrite := HashTree.writeLevels?_eq (c := c) hw hmax [] (blocks.map (leafHash c width))
    (nodes.drop blocks.length) (List.forall_mem_nil _) (HashTree.isUniform_leaves hmax blocks)
    (hnodes.drop _) (by rwa [List.length_map])
    (by rw [List.length_map, List.length_drop, hcount, htotal, Nat.add_sub_cancel' hle])
  rw [Nat.zero_mul, List.drop_zero, ← hflatten] at hleaves
  rw [List.length_map] at hwrite
  refine ⟨_, hleaves, ?_⟩
  rw [writeLeaves_eq hw jobs (hnodes.take _) hlen hpos, (hnodes.take _).length_flatten, hlen,
    hflatten, hnodes.drop_flatten, ← List.flatten_append]
  exact hwrite

omit [HashSuite] in
theorem HashTree.getElem?_levels_stored (t : HashTree) (l : Nat) : t.stored.levels[l]? =
    if l ≤ treeDepth t.leafCount then some ⟨levelOffset t.leafCount l, levelWidth t.leafCount l⟩
    else none := by
  unfold stored
  dsimp only
  rw [List.getElem?_map]
  split_ifs with hl
  · rw [List.getElem?_range (Nat.lt_succ_of_le hl)]
    rfl
  · rw [List.getElem?_eq_none (by simp; omega)]
    rfl

/-- The tree is written in the end as it is given by its levels, if there are rounds enough to lay
them out. -/
theorem StoredTree.ofBlocks?_eq (rounds jobs : Nat) (blocks : List Block) :
    StoredTree.ofBlocks? rounds width c blocks jobs =
      match HashTree.ofBlocks width c blocks jobs with
      | .error failure => some (.error failure)
      | .ok t => if treeDepth blocks.length < rounds then some (.ok t.stored) else none := by
  unfold StoredTree.ofBlocks? HashTree.ofBlocks
  by_cases hwidth : width < minNodeWidth ∨ maxNodeWidth < width
  · rw [if_pos hwidth, if_pos hwidth]
    rfl
  by_cases hblocks : blocks.length = 0
  · rw [if_neg hwidth, if_neg hwidth, if_pos hblocks, if_pos hblocks]
    rfl
  have hpos := Nat.pos_of_ne_zero hblocks
  rw [if_neg hwidth, if_neg hwidth, if_neg hblocks, if_neg hblocks, layOut_eq rounds 0 hpos,
    HashTree.leafHashes_eq]
  by_cases hrounds : treeDepth blocks.length < rounds
  · obtain ⟨hmin, hmax⟩ := not_or.1 hwidth
    have hw : 0 < width := Nat.lt_of_lt_of_le (by decide) (Nat.not_lt.1 hmin)
    obtain ⟨leaves, hleaves, hwrite⟩ := exists_leaves (c := c) hw (Nat.not_lt.1 hmax) hpos jobs rfl
    rw [if_pos hrounds, Nat.zero_add]
    dsimp only [Option.bind_eq_bind, Option.bind_some]
    rw [hleaves, Option.bind_some, hwrite]
    simp [HashTree.stored, spansFrom_levelSizes, hrounds]
  · rw [if_neg hrounds]
    simp [hrounds]

namespace HashTree

/-! ## Looking up -/

omit [HashSuite] in
theorem node?_eq_getElem? (t : HashTree) (l k : Nat) :
    t.node? l k = if l ≤ treeDepth t.leafCount ∧ k < levelWidth t.leafCount l
      then t.nodes[levelOffset t.leafCount l + k]? else none := by
  by_cases hl : l ≤ treeDepth t.leafCount
  · simp [node?, levelStart, getElem?_levelSizes, foldr_take_levelSizes, hl]
  · simp [node?, getElem?_levelSizes, hl]

namespace IsOver

variable {t : HashTree} {blocks : List Block} (h : t.IsOver c width blocks)
include h

/-- The nodes of all levels stand one behind the other. -/
theorem nodes_eq_flatMap : t.nodes.toList =
    (List.range (treeDepth blocks.length + 1)).flatMap (levelNodes c width blocks) := by
  rw [h.nodes_eq, levels_eq_map, List.flatMap_def]

theorem isUniform_nodes : IsUniform width t.nodes.toList := by
  intro node hnode
  rw [h.nodes_eq_flatMap] at hnode
  obtain ⟨l, -, hlevel⟩ := List.mem_flatMap.1 hnode
  obtain ⟨k, -, rfl⟩ := List.mem_map.1 hlevel
  exact length_nodeAt h.le_max blocks l k

variable (hwidth : t.width = width)
include hwidth

theorem slice?_stored (k : Nat) :
    slice? t.stored.bytes (k * t.stored.width) t.stored.width = t.nodes[k]? := by
  have hw : 0 < width := Nat.lt_of_lt_of_le (by decide) h.min_le
  have hslice := h.isUniform_nodes.slice?_node hw k
  rw [← hwidth, Array.getElem?_toList] at hslice
  exact hslice

theorem node?_stored (l k : Nat) : t.stored.node? l k = t.node? l k := by
  rw [node?_eq_getElem?]
  by_cases hl : l ≤ treeDepth t.leafCount
  · by_cases hk : k < levelWidth t.leafCount l
    · simp [StoredTree.node?, getElem?_levels_stored, hl, hk, h.slice?_stored hwidth]
    · simp [StoredTree.node?, getElem?_levels_stored, hl, hk, Nat.not_lt.1 hk]
  · simp [StoredTree.node?, getElem?_levels_stored, hl]

theorem root?_stored : t.stored.root? = some t.root := by
  have hpos : 0 < levelWidth t.leafCount (treeDepth t.leafCount) := by
    rw [levelWidth_treeDepth (h.leafCount_eq ▸ h.blocks_pos)]
    exact Nat.one_pos
  have hnode := h.node?_eq_nodeAt (treeDepth t.leafCount) 0
  rw [← h.leafCount_eq, node?_eq_getElem?, if_pos ⟨Nat.le_refl _, hpos⟩,
    if_pos ⟨Nat.le_refl _, hpos⟩, Nat.add_zero] at hnode
  have htop : t.stored.levels.getLast? = some ⟨levelOffset t.leafCount (treeDepth t.leafCount),
      levelWidth t.leafCount (treeDepth t.leafCount)⟩ := by
    simp [stored, List.range_succ]
  rw [StoredTree.root?, htop, h.root_eq_nodeAt, ← h.leafCount_eq, ← hnode]
  exact h.slice?_stored hwidth _

theorem neighbours_stored (sizes : List Nat) (start l index : Nat) :
    t.stored.neighbours l index (spansFrom start sizes) = t.neighbours l index sizes := by
  induction sizes generalizing start l index with
  | nil => rfl
  | cons size rest ih =>
    cases rest with
    | nil => rfl
    | cons next rest =>
      have hrest := ih (start + size) (l + 1) (index / 2)
      rw [spansFrom] at hrest
      rw [spansFrom, spansFrom, StoredTree.neighbours, neighbours, h.node?_stored hwidth, hrest]

theorem path?_stored (i : Nat) : t.stored.path? i = t.path? i := by
  rw [StoredTree.path?, path?, levels_stored, h.neighbours_stored hwidth]
  show (if t.leafCount ≤ i then _ else _) = _
  by_cases hi : i < t.leafCount
  · rw [if_pos hi, if_neg (Nat.not_le.2 hi)]
  · rw [if_neg hi, if_pos (Nat.not_lt.1 hi)]

end IsOver

/-! ## All of it -/

/-- A tree whose nodes are those computed from its leaves, both in the tree and in its string of
bytes, in which each level stands where the one below it ends. -/
structure IsRecursive (t : HashTree) (c : Challenge) (width : Nat) (blocks : List Block) :
    Prop where
  levels_eq : t.stored.levels = (List.range (treeDepth blocks.length + 1)).map fun l =>
    ⟨levelOffset blocks.length l, levelWidth blocks.length l⟩
  bytes_eq : t.stored.bytes =
    ((List.range (treeDepth blocks.length + 1)).flatMap (levelNodes c width blocks)).flatten
  node?_eq (l k : Nat) : t.node? l k =
    if l ≤ treeDepth blocks.length ∧ k < levelWidth blocks.length l
    then some (nodeAt c width blocks l k) else none
  node?_stored (l k : Nat) : t.stored.node? l k = t.node? l k
  root_eq : t.root = nodeAt c width blocks (treeDepth blocks.length) 0
  root?_stored : t.stored.root? = some t.root

theorem IsOver.isRecursive {t : HashTree} {blocks : List Block} (h : t.IsOver c width blocks)
    (hwidth : t.width = width) : t.IsRecursive c width blocks where
  levels_eq := by rw [stored, h.leafCount_eq]
  bytes_eq := by rw [stored, h.nodes_eq_flatMap]
  node?_eq := h.node?_eq_nodeAt
  node?_stored := h.node?_stored hwidth
  root_eq := h.root_eq_nodeAt
  root?_stored := h.root?_stored hwidth

/-- Over any blocks there is one tree, however many jobs its leaves are hashed in.  Each of its
levels has half as many nodes as the one below, rounded up, until one has a single node.  Above
the leaves there are as many levels as the least `depth` with `blocks.length ≤ 2 ^ depth`, and
laying them out takes a round for each and one for the leaves. -/
theorem ofBlocks_recursive (c : Challenge) (hmin : minNodeWidth ≤ width)
    (hmax : width ≤ maxNodeWidth) {blocks : List Block} (hblocks : blocks ≠ []) :
    (∀ depth, treeDepth blocks.length ≤ depth ↔ blocks.length ≤ 2 ^ depth) ∧
    levelWidth blocks.length (treeDepth blocks.length) = 1 ∧
    (∀ l < treeDepth blocks.length, 1 < levelWidth blocks.length l) ∧
    ∃ t : HashTree, t.IsRecursive c width blocks ∧
      ∀ jobs, ofBlocks width c blocks jobs = .ok t ∧
        ∀ rounds, StoredTree.ofBlocks? rounds width c blocks jobs =
          if treeDepth blocks.length < rounds then some (.ok t.stored) else none := by
  obtain ⟨t, hover, hwidth, htree⟩ := exists_ofBlocks c hmin hmax hblocks
  refine ⟨fun depth => ?_, levelWidth_treeDepth hover.blocks_pos, fun l => one_lt_levelWidth, t,
    hover.isRecursive hwidth, fun jobs => ⟨htree jobs, fun rounds => ?_⟩⟩
  · rw [treeDepth_eq_clog]
    exact Nat.clog_le_iff_le_pow (by decide)
  · rw [StoredTree.ofBlocks?_eq, htree jobs]

end HashTree

end

/-- Of three leaves the last one is paired with itself. -/
theorem HashTree.ofBlocks_recursive_three :
    let c : Challenge := .ofHeader [1, 2, 3]
    let blocks : List Block := [.zero, .zero, .zero]
    minNodeWidth ≤ 8 ∧ 8 ≤ maxNodeWidth ∧ blocks ≠ [] ∧
      ∃ t : HashTree, HashTree.ofBlocks 8 c blocks 5 = .ok t ∧
        StoredTree.ofBlocks? 3 8 c blocks 0 = some (.ok t.stored) ∧
        StoredTree.ofBlocks? 2 8 c blocks 0 = none ∧
        t.stored.levels = [⟨0, 3⟩, ⟨3, 2⟩, ⟨5, 1⟩] ∧
        t.node? 1 1 = some (nodeHash c 8 (leafHash c 8 .zero) (leafHash c 8 .zero)) ∧
        t.node? 1 2 = none := by
  intro c blocks
  have hmin : minNodeWidth ≤ 8 := by decide
  have hmax : 8 ≤ maxNodeWidth := by decide
  have hblocks : blocks ≠ [] := List.cons_ne_nil _ _
  have hdepth : treeDepth 3 = 2 := by simp [treeDepth]
  obtain ⟨-, -, -, t, ht, htree⟩ := HashTree.ofBlocks_recursive c hmin hmax hblocks
  have hlevels := ht.levels_eq
  have hnode := ht.node?_eq 1
  obtain ⟨-, hfew⟩ := htree 0
  rw [show blocks.length = 3 from rfl, hdepth] at hlevels hnode hfew
  exact ⟨hmin, hmax, hblocks, t, (htree 5).1, hfew 3, hfew 2, hlevels, hnode 1, hnode 2⟩

end MemoryHard
