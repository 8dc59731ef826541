import MemoryHard.Proof.Walk

/-!
# MemoryHard.Proofs.Proof.Walk — walks over different stores

A walk asks its store for the blocks it visits and for no others.

* `walkFrom_visits` — how far a walk that ends has come, and that its blocks were there;
* `walkFrom_congr` — another store with the same blocks where the walk comes by;
* `exists_walkFrom` — over a full store every walk ends.
-/

namespace MemoryHard

open MemoryHard.Bytes

variable [HashSuite] {store store' : Nat → Option Block} {count steps : Nat}
  {digest last : FixedBytes 32} {visited : List Nat}

omit [HashSuite] in
theorem walkIndex_lt (h : 0 < count) (digest : FixedBytes 32) : walkIndex count digest < count :=
  Nat.mod_lt _ h

/-- A walk that ends after another step: the block it begins with is there, and the walk from the
next digest ends. -/
theorem walkFrom_succ_iff :
    walkFrom store count (steps + 1) digest = (visited, some last) ↔
      ∃ block rest, store (walkIndex count digest) = some block ∧
        walkFrom store count steps (walkNext digest block) = (rest, some last) ∧
        visited = walkIndex count digest :: rest := by
  rw [walkFrom]
  dsimp only
  cases hs : store (walkIndex count digest) with
  | none => simp
  | some block =>
    dsimp only
    rw [Prod.mk.injEq]
    constructor
    · rintro ⟨hvisited, hlast⟩
      exact ⟨block, _, rfl, Prod.ext rfl hlast, hvisited.symm⟩
    · rintro ⟨block', rest, hblock, hwalk, hvisited⟩
      cases hblock
      rw [hwalk]
      exact ⟨hvisited.symm, rfl⟩

theorem walkFrom_of_none (h : store (walkIndex count digest) = none) :
    walkFrom store count (steps + 1) digest = ([walkIndex count digest], none) := by
  rw [walkFrom]
  dsimp only
  rw [h]

theorem walkFrom_of_some {block : Block} (h : store (walkIndex count digest) = some block) :
    walkFrom store count (steps + 1) digest =
      (walkIndex count digest :: (walkFrom store count steps (walkNext digest block)).1,
        (walkFrom store count steps (walkNext digest block)).2) := by
  rw [walkFrom]
  dsimp only
  rw [h]

/-- The first block of a walk is visited even if it is missing. -/
theorem exists_walkFrom_succ_fst (store : Nat → Option Block) (count steps : Nat)
    (digest : FixedBytes 32) :
    ∃ rest, (walkFrom store count (steps + 1) digest).1 = walkIndex count digest :: rest := by
  cases h : store (walkIndex count digest) with
  | none => exact ⟨[], by rw [walkFrom_of_none h]⟩
  | some block => exact ⟨_, by rw [walkFrom_of_some h]⟩

/-- A walk that ends has visited as many blocks as it has steps, and all of them are there. -/
theorem walkFrom_visits (h : walkFrom store count steps digest = (visited, some last)) :
    visited.length = steps ∧ ∀ i ∈ visited, (store i).isSome := by
  induction steps generalizing digest visited with
  | zero =>
    cases h
    exact ⟨rfl, fun i hi => nomatch hi⟩
  | succ steps ih =>
    obtain ⟨block, rest, hblock, hwalk, rfl⟩ := walkFrom_succ_iff.1 h
    obtain ⟨hlength, hrest⟩ := ih hwalk
    refine ⟨by rw [List.length_cons, hlength], ?_⟩
    intro i hi
    rcases List.mem_cons.1 hi with rfl | hi
    · rw [hblock]
      rfl
    · exact hrest i hi

/-- A store with the same blocks where a walk comes by leads it the same way. -/
theorem walkFrom_congr (h : walkFrom store count steps digest = (visited, some last))
    (hs : ∀ i ∈ visited, store' i = store i) :
    walkFrom store' count steps digest = (visited, some last) := by
  induction steps generalizing digest visited with
  | zero => exact h
  | succ steps ih =>
    obtain ⟨block, rest, hblock, hwalk, rfl⟩ := walkFrom_succ_iff.1 h
    refine walkFrom_succ_iff.2 ⟨block, rest, ?_, ?_, rfl⟩
    · rw [hs _ List.mem_cons_self, hblock]
    · exact ih hwalk fun i hi => hs i (List.mem_cons_of_mem _ hi)

/-- Where all blocks are there, every walk ends. -/
theorem exists_walkFrom (hc : 0 < count) (hs : ∀ i < count, (store i).isSome) (steps : Nat)
    (digest : FixedBytes 32) :
    ∃ visited last, walkFrom store count steps digest = (visited, some last) := by
  induction steps generalizing digest with
  | zero => exact ⟨[], digest, rfl⟩
  | succ steps ih =>
    obtain ⟨block, hblock⟩ := Option.isSome_iff_exists.1 (hs _ (walkIndex_lt hc digest))
    obtain ⟨rest, last, hwalk⟩ := ih (walkNext digest block)
    exact ⟨_, last, walkFrom_succ_iff.2 ⟨block, rest, hblock, hwalk, rfl⟩⟩

end MemoryHard
