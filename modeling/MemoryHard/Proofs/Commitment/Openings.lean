import Mathlib.Data.List.Sort
import MemoryHard.Digest.Standard
import MemoryHard.Proofs.Commitment.Storage

/-!
# MemoryHard.Proofs.Commitment.Openings — every leaf has its path

A tree has a path for each of its leaves, and for no other number.  Each leads from its block to
the root.  For a set of leaves the tree gives their paths in ascending order.

* `ascending_filter_lt` — a set of numbers put in order, as far as they are below a bound;
* `HashTree.IsOver.paths_eq` — the paths of a set of leaves;
* `HashTree.every_leaf_opens` — all of it.
-/

namespace MemoryHard

open MemoryHard.Bytes

/-! ## Numbers in ascending order -/

section

variable {n m : Nat} {xs : List Nat}

theorem mem_insertAscending : m ∈ insertAscending n xs ↔ m = n ∨ m ∈ xs := by
  induction xs with
  | nil => simp [insertAscending]
  | cons x xs ih =>
    rw [insertAscending]
    split_ifs with hlt heq
    · exact List.mem_cons
    · simp [heq]
    · rw [List.mem_cons, ih, List.mem_cons]
      exact or_left_comm

theorem pairwise_insertAscending (h : xs.Pairwise (· < ·)) :
    (insertAscending n xs).Pairwise (· < ·) := by
  induction xs with
  | nil => exact List.pairwise_singleton _ _
  | cons x xs ih =>
    obtain ⟨hx, hxs⟩ := List.pairwise_cons.1 h
    rw [insertAscending]
    split_ifs with hlt heq
    · refine List.pairwise_cons.2 ⟨fun y hy => ?_, h⟩
      rcases List.mem_cons.1 hy with rfl | hy
      · exact hlt
      · exact Nat.lt_trans hlt (hx y hy)
    · exact h
    · refine List.pairwise_cons.2 ⟨fun y hy => ?_, ih hxs⟩
      rcases mem_insertAscending.1 hy with rfl | hy
      · omega
      · exact hx y hy

theorem mem_ascending : m ∈ ascending xs ↔ m ∈ xs := by
  induction xs with
  | nil => exact Iff.rfl
  | cons x xs ih =>
    rw [List.mem_cons, ← ih]
    exact mem_insertAscending

theorem pairwise_ascending (xs : List Nat) : (ascending xs).Pairwise (· < ·) := by
  induction xs with
  | nil => exact List.Pairwise.nil
  | cons x xs ih => exact pairwise_insertAscending ih

/-- An ascending list is known by its members. -/
theorem ascending_filter_lt (n : Nat) (xs : List Nat) :
    (ascending xs).filter (· < n) = (List.range n).filter (· ∈ xs) := by
  refine ((pairwise_ascending xs).filter _).eq_of_mem_iff (List.pairwise_lt_range.filter _) ?_
  intro m
  simp [mem_ascending, and_comm]

end

namespace HashTree

section

variable [HashSuite] {c : Challenge} {width : Nat}

/-! ## The paths of a tree -/

namespace IsOver

variable {t : HashTree} {blocks : List Block} (h : t.IsOver c width blocks)
include h

theorem path?_eq_ite (i : Nat) : t.path? i =
    if i < blocks.length then some ⟨siblings c width (blocks.map (leafHash c width)) i⟩
    else none := by
  split_ifs with hi
  · exact h.path?_eq hi
  · exact h.path?_eq_none (Nat.not_lt.1 hi)

/-- Leaves that are not there are left out, the others are taken in ascending order, each once. -/
theorem paths_eq (leaves : List Nat) : t.paths leaves =
    ((List.range blocks.length).filter (· ∈ leaves)).map fun i =>
      (i, ⟨siblings c width (blocks.map (leafHash c width)) i⟩) := by
  rw [← ascending_filter_lt, ← List.filterMap_eq_map, List.filterMap_filter, paths]
  congr 1
  ext1 i
  rw [h.path?_eq_ite]
  by_cases hi : i < blocks.length <;> simp [hi]

end IsOver

/-- Over any blocks there is one tree, however many jobs its leaves are hashed in.  It has a path
for each leaf and for nothing else, in its string of bytes as well.  The path has a neighbour for
each level above the leaves and leads from the block to the root. -/
theorem every_leaf_opens (c : Challenge) (hmin : minNodeWidth ≤ width)
    (hmax : width ≤ maxNodeWidth) {blocks : List Block} (hblocks : blocks ≠ []) :
    ∃ (t : HashTree) (path : Nat → HashPath),
      (∀ jobs, ofBlocks width c blocks jobs = .ok t ∧
        ∀ rounds, treeDepth blocks.length < rounds →
          StoredTree.ofBlocks? rounds width c blocks jobs = some (.ok t.stored)) ∧
      (∀ i, t.path? i = if i < blocks.length then some (path i) else none) ∧
      (∀ i, t.stored.path? i = t.path? i) ∧
      (∀ i block, blocks[i]? = some block →
        (path i).siblings.length = treeDepth blocks.length ∧
          (path i).verify c width blocks.length i block t.root = true) ∧
      ∀ leaves, t.paths leaves =
        ((List.range blocks.length).filter (· ∈ leaves)).map fun i => (i, path i) := by
  obtain ⟨t, hover, hwidth, htree⟩ := exists_ofBlocks c hmin hmax hblocks
  refine ⟨t, fun i => ⟨siblings c width (blocks.map (leafHash c width)) i⟩,
    fun jobs => ⟨htree jobs, fun rounds hrounds => ?_⟩, hover.path?_eq_ite,
    hover.path?_stored hwidth, fun i block hblock => ⟨?_, ?_⟩, hover.paths_eq⟩
  · rw [StoredTree.ofBlocks?_eq, htree jobs]
    exact if_pos hrounds
  · rw [length_siblings, List.length_map]
  · obtain ⟨hi, -⟩ := List.getElem?_eq_some_iff.1 hblock
    exact hover.verify_path hblock (hover.path?_eq hi)

end

/-- The last of three leaves, asked for twice along with one that is not there. -/
theorem every_leaf_opens_three :
    let c : Challenge := .ofHeader [1, 2, 3]
    let blocks : List Block := [.zero, .zero, .zero]
    minNodeWidth ≤ 8 ∧ 8 ≤ maxNodeWidth ∧ blocks ≠ [] ∧
      ∃ (t : HashTree) (path : HashPath), ofBlocks 8 c blocks 5 = .ok t ∧
        t.path? 2 = some path ∧ t.path? 3 = none ∧ path.siblings.length = 2 ∧
        path.verify c 8 3 2 .zero t.root = true ∧ t.paths [7, 2, 2] = [(2, path)] := by
  intro c blocks
  have hmin : minNodeWidth ≤ 8 := by decide
  have hmax : 8 ≤ maxNodeWidth := by decide
  have hblocks : blocks ≠ [] := List.cons_ne_nil _ _
  obtain ⟨t, path, htree, hpath, -, hopen, hpaths⟩ := every_leaf_opens c hmin hmax hblocks
  obtain ⟨hlength, hverify⟩ := hopen 2 .zero rfl
  have hdepth : treeDepth 3 = 2 := by simp [treeDepth]
  exact ⟨hmin, hmax, hblocks, t, path 2, (htree 5).1, hpath 2, hpath 3, hlength.trans hdepth,
    hverify, hpaths [7, 2, 2]⟩

end HashTree

end MemoryHard
