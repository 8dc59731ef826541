import MemoryHard.Digest.Standard
import MemoryHard.Memory.Revealed
import MemoryHard.Proofs.Memory.Fill
import MemoryHard.Proofs.Proof.Walk

/-!
# MemoryHard.Proofs.Proof.Lockstep — walks over a part of a store

Whoever knows a part of a memory only walks like one who knows all of it, for as long as the blocks
on the way are known.  The walk over the part ends with the first block that is not.

* `IsPartOf` — the blocks of one store are blocks of another;
* `StopsShort` — a walk ends with the first block that is missing;
* `walkFrom_part_cases` — a walk over a part is the walk over the whole, or stops short of it;
* `walk_over_part` — the same for the walk of a nonce.
-/

namespace MemoryHard

open MemoryHard.Bytes

section

variable {part whole store : Nat → Option Block} {visited : List Nat}
  {w : List Nat × Option (FixedBytes 32)}

/-- Every block of the first store stands in the second one as well, with the same contents. -/
def IsPartOf (part whole : Nat → Option Block) : Prop :=
  ∀ i block, part i = some block → whole i = some block

/-- Of the blocks that are visited the first one that is missing from the store is the last of the
walk, which comes to no digest. -/
def StopsShort (store : Nat → Option Block) (visited : List Nat)
    (w : List Nat × Option (FixedBytes 32)) : Prop :=
  ∃ before i after, visited = before ++ i :: after ∧ (∀ j ∈ before, (store j).isSome) ∧
    store i = none ∧ w = (before ++ [i], none)

theorem StopsShort.cons {j : Nat} (h : StopsShort store visited w) (hj : (store j).isSome) :
    StopsShort store (j :: visited) (j :: w.1, w.2) := by
  obtain ⟨before, i, after, rfl, hbefore, hi, rfl⟩ := h
  exact ⟨j :: before, i, after, rfl, List.forall_mem_cons.2 ⟨hj, hbefore⟩, hi, rfl⟩

theorem StopsShort.exists_missing (h : StopsShort store visited w) :
    ∃ i ∈ visited, store i = none := by
  obtain ⟨before, i, after, rfl, -, hi, -⟩ := h
  exact ⟨i, List.mem_append_right _ List.mem_cons_self, hi⟩

theorem StopsShort.snd_eq (h : StopsShort store visited w) : w.2 = none := by
  obtain ⟨before, i, after, -, -, -, rfl⟩ := h
  rfl

variable [HashSuite]

/-- A walk over a part of a store is the walk over the whole, or stops short of it. -/
theorem walkFrom_part_cases (h : IsPartOf part whole) (count steps : Nat)
    (digest : FixedBytes 32) :
    (∃ visited last, walkFrom part count steps digest = (visited, some last) ∧
      walkFrom whole count steps digest = (visited, some last)) ∨
    StopsShort part (walkFrom whole count steps digest).1 (walkFrom part count steps digest) := by
  -- both walks stand at the same digest, so they ask their stores for the same block
  induction steps generalizing digest with
  | zero => exact .inl ⟨[], digest, rfl, rfl⟩
  | succ steps ih =>
    cases hblock : part (walkIndex count digest) with
    | none =>
      obtain ⟨rest, hrest⟩ := exists_walkFrom_succ_fst whole count steps digest
      exact .inr ⟨[], _, rest, hrest, List.forall_mem_nil _, hblock, walkFrom_of_none hblock⟩
    | some block =>
      rw [walkFrom_of_some hblock, walkFrom_of_some (h _ _ hblock)]
      rcases ih (walkNext digest block) with ⟨visited, last, hpart, hwhole⟩ | hshort
      · rw [hpart, hwhole]
        exact .inl ⟨_, last, rfl, rfl⟩
      · exact .inr (hshort.cons (by rw [hblock]; rfl))

/-- For any parameters, challenge, root and nonce, and any two stores of which one is a part of the
other: a walk over the part that comes to a digest visits what the walk over the whole visits, which
comes to the same digest.  It comes to none just if the walk over the whole visits a block that is
missing from the part, and it ends with the first such block.  Where the whole holds all blocks,
the walk over it comes to a digest. -/
theorem walk_over_part (h : IsPartOf part whole) (p : Params) (c : Challenge) (root : Bytes)
    (nonce : UInt32) :
    let short := walk part p c root nonce
    let full := walk whole p c root nonce
    (∀ visited digest, short = (visited, some digest) → full = (visited, some digest)) ∧
    (short.2 = none ↔ ∃ i ∈ full.1, part i = none) ∧
    (short.2 = none → StopsShort part full.1 short) ∧
    (0 < p.blockCount → (∀ i < p.blockCount, (whole i).isSome) → full.2.isSome) := by
  intro short full
  have hends (hcount : 0 < p.blockCount) (hwhole : ∀ i < p.blockCount, (whole i).isSome) :
      full.2.isSome := by
    obtain ⟨visited, last, hwalk⟩ : ∃ visited last, full = (visited, some last) :=
      exists_walkFrom hcount hwhole _ _
    rw [hwalk]
    rfl
  have hcases : (∃ visited last, short = (visited, some last) ∧ full = (visited, some last)) ∨
      StopsShort part full.1 short := walkFrom_part_cases h _ _ _
  rcases hcases with ⟨visited, last, hshort, hfull⟩ | hshort
  · -- the walks go together to the end, so nothing was missing on the way
    have hknown : ∀ i ∈ visited, (part i).isSome := (walkFrom_visits hshort).2
    have hnone : ¬∃ i ∈ full.1, part i = none := by
      rw [hfull]
      rintro ⟨i, hi, hmissing⟩
      exact absurd (hknown i hi) (by rw [hmissing]; exact Bool.false_ne_true)
    have hdigest : short.2 ≠ none := by
      rw [hshort]
      exact Option.some_ne_none last
    exact ⟨fun visited' digest hwalk => hfull.trans (hshort.symm.trans hwalk),
      iff_of_false hdigest hnone, fun hlost => absurd hlost hdigest, hends⟩
  · -- the walk over the part breaks off, so it comes to no digest
    refine ⟨fun visited digest hwalk => ?_, iff_of_true hshort.snd_eq hshort.exists_missing,
      fun _ => hshort, hends⟩
    have hlost := hshort.snd_eq
    rw [hwalk] at hlost
    cases hlost

end

/-- The walk of a nonce visits the blocks 4 and 9 of an empty memory.  Where block 4 is known and
nothing else, it ends with block 9. -/
theorem walk_over_part_sixteen :
    let p : Params := { Params.sixteen 1 with searchLength := 2 }
    let c : Challenge := ⟨⟨List.replicate 32 0, rfl⟩⟩
    let m : Memory := .ofGeometry p.geometry none
    let known : Revealed := Revealed.insert {} 4 .zero
    IsPartOf known.get? m.get? ∧ (walk m.get? p c [] 0).1 = [4, 9] ∧
      (walk m.get? p c [] 0).2.isSome ∧
      StopsShort known.get? [4, 9] (walk known.get? p c [] 0) := by
  intro p c m known
  have hpart : IsPartOf known.get? m.get? := by
    intro i block hblock
    rw [Revealed.get?_insert] at hblock
    split_ifs at hblock with hi
    · cases hblock
      rw [hi]
      decide +kernel
    · cases hblock
  have hvisited : (walk m.get? p c [] 0).1 = [4, 9] := by decide +kernel
  have hwhole : ∀ i < p.blockCount, (m.get? i).isSome := by decide
  obtain ⟨-, hnone, hshort, hends⟩ := walk_over_part hpart p c [] 0
  rw [hvisited] at hnone hshort
  have hmissing : ∃ i ∈ [4, 9], known.get? i = none := ⟨9, by decide, rfl⟩
  exact ⟨hpart, hvisited, hends (by decide) hwhole, hshort (hnone.2 hmissing)⟩

end MemoryHard
