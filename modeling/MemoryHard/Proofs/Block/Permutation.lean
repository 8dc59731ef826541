import Mathlib.Data.Fintype.EquivFin
import Mathlib.Data.Nat.ModEq
import MemoryHard.Proofs.Block.Xor

/-!
# MemoryHard.Proofs.Block.Permutation — the permutation of a block loses nothing

Every assignment of a step can be undone in the word that it changes, so a step can be undone, and
so can a round, which runs steps on words at places that differ.  The rows and the columns share
out the words of a block among them.

* `hardAdd_bijective`, `rotateRight64_bijective` — the assignments;
* `updates`, `step_eq_foldl`, `step_bijective` — a step as a sequence of assignments;
* `mixAt_bijective`, `round_bijective` — steps and rounds inside a vector;
* `perm_quads_columns`, `perm_quads_diagonals` — the places that a round uses;
* `permute_bijective` — the permutation.
-/

namespace MemoryHard

open MemoryHard.Digest Function

/-! ## Words -/

theorem finite_word : Finite UInt64 :=
  Finite.of_injective UInt64.toFin fun _ _ h => UInt64.toFin_inj.1 h

theorem toNat_lowHalf (x : UInt64) : (lowHalf x).toNat = x.toNat % 2 ^ 32 := by
  rw [lowHalf, UInt64.toNat_and, ← Nat.and_two_pow_sub_one_eq_mod]
  rfl

/-- The sum of two numbers and twice the product of their low halves, modulo `2 ^ 64`. -/
theorem toNat_hardAdd (x y : UInt64) :
    (hardAdd x y).toNat =
      (x.toNat + y.toNat + 2 * (x.toNat % 2 ^ 32) * (y.toNat % 2 ^ 32)) % 2 ^ 64 := by
  rw [hardAdd, UInt64.toNat_add, UInt64.toNat_add, UInt64.toNat_mul, UInt64.toNat_mul,
    toNat_lowHalf, toNat_lowHalf]
  simp [Nat.mul_assoc]

/-- In its low half the sum is the first word times the odd number `1 + 2 * y`, plus `y`. -/
theorem hardAdd_modEq (x y : UInt64) :
    (hardAdd x y).toNat ≡ x.toNat * (1 + 2 * y.toNat) + y.toNat [MOD 2 ^ 32] := by
  have hx := Nat.mod_modEq x.toNat (2 ^ 32)
  have hy := Nat.mod_modEq y.toNat (2 ^ 32)
  have hmod : (hardAdd x y).toNat ≡
      x.toNat + y.toNat + 2 * (x.toNat % 2 ^ 32) * (y.toNat % 2 ^ 32) [MOD 2 ^ 32] := by
    rw [toNat_hardAdd]
    exact (Nat.mod_modEq _ _).of_dvd (Nat.pow_dvd_pow 2 (by decide))
  calc (hardAdd x y).toNat
      ≡ x.toNat + y.toNat + 2 * (x.toNat % 2 ^ 32) * (y.toNat % 2 ^ 32) [MOD 2 ^ 32] := hmod
    _ ≡ x.toNat + y.toNat + 2 * x.toNat * y.toNat [MOD 2 ^ 32] :=
        ((hx.mul_left 2).mul hy).add_left _
    _ = x.toNat * (1 + 2 * y.toNat) + y.toNat := by
        rw [Nat.mul_add, Nat.mul_one, Nat.mul_left_comm, Nat.mul_assoc]
        omega

theorem lowHalf_eq_of_hardAdd {x x' y : UInt64} (h : hardAdd x y = hardAdd x' y) :
    lowHalf x = lowHalf x' := by
  have hmod := (hardAdd_modEq x y).symm.trans (h ▸ hardAdd_modEq x' y)
  -- an odd factor can be cancelled modulo a power of two
  have hodd : Nat.gcd (2 ^ 32) (1 + 2 * y.toNat) = 1 :=
    Nat.Coprime.pow_left 32 (by simp)
  have hlow := (Nat.ModEq.add_right_cancel' _ hmod).cancel_right_of_coprime hodd
  apply UInt64.toNat_inj.1
  rw [toNat_lowHalf, toNat_lowHalf]
  exact hlow

/-- The low half of the sum determines that of the first word, and with it the product. -/
theorem hardAdd_bijective (y : UInt64) : Bijective (hardAdd · y) := by
  have := finite_word
  apply Injective.bijective_of_finite
  intro x x' h
  have hlow := lowHalf_eq_of_hardAdd h
  simp only [hardAdd, hlow, UInt64.add_left_inj] at h
  exact h

theorem testBit_eq_false (x : UInt64) {i : Nat} (hi : 64 ≤ i) : x.toNat.testBit i = false :=
  Nat.testBit_lt_two_pow (Nat.lt_of_lt_of_le x.toNat_lt (Nat.pow_le_pow_right (by decide) hi))

/-- Turned by `k` bits, bit `i` of a word stands `k` places further down. -/
theorem testBit_rotateRight64 (x : UInt64) {k : UInt64} (hpos : 0 < k.toNat) (hk : k.toNat < 64)
    {i : Nat} (hi : i < 64) :
    (rotateRight64 x k).toNat.testBit ((i + 64 - k.toNat) % 64) = x.toNat.testBit i := by
  have hsub : (64 - k).toNat = 64 - k.toNat :=
    UInt64.toNat_sub_of_le _ _ (UInt64.le_iff_toNat_le.2 (Nat.le_of_lt hk))
  rw [rotateRight64, UInt64.toNat_or, UInt64.toNat_shiftRight, UInt64.toNat_shiftLeft, hsub,
    Nat.mod_eq_of_lt hk, Nat.mod_eq_of_lt (by omega : 64 - k.toNat < 64), Nat.testBit_or,
    Nat.testBit_shiftRight, Nat.testBit_mod_two_pow, Nat.testBit_shiftLeft]
  rcases Nat.lt_or_ge i k.toNat with hlt | hge
  · -- the bits below `k` come from the shift to the left
    have hplace : (i + 64 - k.toNat) % 64 = 64 - k.toNat + i := by omega
    have hshift : k.toNat + (64 - k.toNat + i) = i + 64 := by omega
    have hin : 64 - k.toNat + i < 64 := by omega
    rw [hplace, hshift, testBit_eq_false x (by omega), Nat.add_sub_cancel_left]
    simp [hin]
  · have hplace : (i + 64 - k.toNat) % 64 = i - k.toNat := by omega
    have hout : ¬64 - k.toNat ≤ i - k.toNat := by omega
    rw [hplace, Nat.add_sub_cancel' hge]
    simp [hout]

theorem rotateRight64_bijective {k : UInt64} (hpos : 0 < k.toNat) (hk : k.toNat < 64) :
    Bijective (rotateRight64 · k) := by
  have := finite_word
  apply Injective.bijective_of_finite
  intro x x' h
  apply UInt64.toNat_inj.1
  apply Nat.eq_of_testBit_eq
  intro i
  by_cases hi : i < 64
  · rw [← testBit_rotateRight64 x hpos hk hi, ← testBit_rotateRight64 x' hpos hk hi]
    exact congrArg (fun w : UInt64 => w.toNat.testBit _) h
  · rw [testBit_eq_false x (Nat.not_lt.1 hi), testBit_eq_false x' (Nat.not_lt.1 hi)]

/-- The exclusive or of two words, turned by `k` bits. -/
def turnWith (k x y : UInt64) : UInt64 := rotateRight64 (x ^^^ y) k

theorem turnWith_bijective {k : UInt64} (hpos : 0 < k.toNat) (hk : k.toNat < 64) (y : UInt64) :
    Bijective (turnWith k · y) := by
  have := finite_word
  apply Injective.bijective_of_finite
  intro x x' h
  exact (UInt64.xor_left_inj y).1 ((rotateRight64_bijective hpos hk).1 h)

/-! ## A step -/

theorem foldl_bijective {α β : Type} {f : β → α → β} {xs : List α}
    (h : ∀ x ∈ xs, Bijective (f · x)) : Bijective fun b => xs.foldl f b := by
  induction xs with
  | nil => exact bijective_id
  | cons x xs ih =>
    have hrest := ih fun y hy => h y (List.mem_cons_of_mem x hy)
    exact hrest.comp (h x List.mem_cons_self)

namespace Digest.Four

/-- The first word changed with the help of the second, and all four moved on by one place, so that
the last one comes next. -/
def update {α : Type} (q : Four α) (f : α → α → α) : Four α := ⟨q.d, f q.a q.b, q.b, q.c⟩

theorem update_bijective {α : Type} {f : α → α → α} (h : ∀ y, Bijective (f · y)) :
    Bijective (update · f) := by
  constructor
  · rintro ⟨a, b, c, d⟩ ⟨a', b', c', d'⟩ hq
    simp only [update, Four.mk.injEq] at hq
    obtain ⟨rfl, ha, rfl, rfl⟩ := hq
    rw [(h b).1 ha]
  · rintro ⟨d, a, b, c⟩
    obtain ⟨x, hx⟩ := (h b).2 a
    exact ⟨⟨x, b, c, d⟩, by simp only [update, hx]⟩

end Digest.Four

namespace Block

/-- The eight assignments of a step, in order. -/
def updates : List (UInt64 → UInt64 → UInt64) :=
  [32, 24, 16, 63].flatMap fun k => [hardAdd, turnWith k]

theorem updates_bijective {f : UInt64 → UInt64 → UInt64} (hf : f ∈ updates) (y : UInt64) :
    Bijective (f · y) := by
  obtain ⟨k, hk, hf⟩ := List.mem_flatMap.1 hf
  obtain ⟨hpos, hlt⟩ : 0 < k.toNat ∧ k.toNat < 64 := by
    simp only [List.mem_cons, List.not_mem_nil, or_false] at hk
    rcases hk with rfl | rfl | rfl | rfl <;> decide
  rcases List.mem_pair.1 hf with rfl | rfl
  · exact hardAdd_bijective y
  · exact turnWith_bijective hpos hlt y

/-- After eight assignments every word is in its place again. -/
theorem step_eq_foldl (q : Four UInt64) : step q = updates.foldl Four.update q := rfl

theorem step_bijective : Bijective step := by
  have hfold : Bijective fun q : Four UInt64 => updates.foldl Four.update q :=
    foldl_bijective fun f hf => Four.update_bijective (updates_bijective hf)
  exact hfold

end Block

/-! ## Steps inside a vector -/

namespace Digest

variable {α : Type} {n : Nat} {f g : Four α → Four α} {v : Vector α n} {q : Four (Fin n)}

/-- The four in order. -/
def Four.toList {β : Type} (q : Four β) : List β := [q.a, q.b, q.c, q.d]

/-- The four are four different ones. -/
def Four.IsApart {β : Type} (q : Four β) : Prop := [q.a, q.b, q.c, q.d].Nodup

instance {β : Type} [DecidableEq β] (q : Four β) : Decidable q.IsApart :=
  inferInstanceAs (Decidable (List.Nodup _))

theorem Four.IsApart.map {β γ : Type} {place : β → γ} (hplace : Injective place) {q : Four β}
    (hq : q.IsApart) : (q.map place).IsApart :=
  List.Nodup.map hplace hq

/-- The words of a vector at four places. -/
def pickAt (v : Vector α n) (q : Four (Fin n)) : Four α := q.map v.get

theorem getElem_mixAt_of_ne {i : Fin n} (h : i ≠ q.a ∧ i ≠ q.b ∧ i ≠ q.c ∧ i ≠ q.d) :
    (mixAt f v q)[i] = v[i] := by
  simp only [ne_eq, Fin.ext_iff] at h
  obtain ⟨ha, hb, hc, hd⟩ := h
  simp [mixAt, Ne.symm ha, Ne.symm hb, Ne.symm hc, Ne.symm hd]

theorem pickAt_mixAt (hq : q.IsApart) : pickAt (mixAt f v q) q = f (pickAt v q) := by
  simp only [Four.IsApart, List.nodup_cons, List.mem_cons, List.not_mem_nil, or_false, not_or,
    Fin.ext_iff] at hq
  obtain ⟨⟨hab, hac, had⟩, ⟨hbc, hbd⟩, hcd, -⟩ := hq
  have hget (w : Vector α n) (i : Fin n) : w.get i = w[i] := rfl
  simp [pickAt, Four.map, hget, mixAt, Ne.symm hab, Ne.symm hac, Ne.symm had, Ne.symm hbc,
    Ne.symm hbd, Ne.symm hcd]

/-- A step inside a vector is undone by a step that undoes it on the four words. -/
theorem mixAt_mixAt (hq : q.IsApart) (h : ∀ x, g (f x) = x) : mixAt g (mixAt f v q) q = v := by
  have hpick : pickAt (mixAt g (mixAt f v q) q) q = pickAt v q := by
    rw [pickAt_mixAt hq, pickAt_mixAt hq, h]
  simp only [pickAt, Four.map, Four.mk.injEq] at hpick
  obtain ⟨ha, hb, hc, hd⟩ := hpick
  have hall (j : Fin n) : (mixAt g (mixAt f v q) q)[j] = v[j] := by
    -- a word that neither step touches, or one of the four
    by_cases hne : j ≠ q.a ∧ j ≠ q.b ∧ j ≠ q.c ∧ j ≠ q.d
    · rw [getElem_mixAt_of_ne hne, getElem_mixAt_of_ne hne]
    · obtain rfl | rfl | rfl | rfl : j = q.a ∨ j = q.b ∨ j = q.c ∨ j = q.d := by
        by_contra hout
        simp only [not_or] at hout
        exact hne hout
      · exact ha
      · exact hb
      · exact hc
      · exact hd
  exact Vector.ext fun i hi => hall ⟨i, hi⟩

theorem mixAt_bijective (hf : Bijective f) (hq : q.IsApart) :
    Bijective fun v : Vector α n => mixAt f v q := by
  obtain ⟨g, hleft, hright⟩ := bijective_iff_has_inverse.1 hf
  exact bijective_iff_has_inverse.2
    ⟨fun v => mixAt g v q, fun v => mixAt_mixAt hq hleft, fun v => mixAt_mixAt hq hright⟩

end Digest

/-! ## Rounds -/

namespace Block

variable {place : Fin 16 → Fin 128}

theorem isApart_of_mem_quads {q : Four (Fin 16)} (hq : q ∈ quads.toList) : q.IsApart := by
  have h : ∀ q ∈ quads.toList, q.IsApart := by decide
  exact h q hq

/-- The steps over the columns of a round use each of its places once. -/
theorem perm_quads_columns :
    ((quads.toList.take 4).flatMap Four.toList).Perm (List.finRange 16) := by
  decide

/-- So do the steps over its diagonals. -/
theorem perm_quads_diagonals :
    ((quads.toList.drop 4).flatMap Four.toList).Perm (List.finRange 16) := by
  decide

theorem round_bijective (hplace : Injective place) : Bijective (round place) :=
  foldl_bijective fun _ hq => mixAt_bijective step_bijective ((isApart_of_mem_quads hq).map hplace)

/-- A round leaves the words alone that are not at its places. -/
theorem getElem_round_of_ne {i : Fin 128} (h : ∀ k, place k ≠ i) (w : Vector UInt64 128) :
    (round place w)[i] = w[i] := by
  unfold round
  induction quads.toList generalizing w with
  | nil => rfl
  | cons q qs ih =>
    rw [List.foldl_cons, ih]
    exact getElem_mixAt_of_ne ⟨(h _).symm, (h _).symm, (h _).symm, (h _).symm⟩

theorem rowPlace_injective (r : Fin 8) : Injective (rowPlace r) := by
  intro j k h
  simp only [rowPlace, Fin.mk.injEq] at h
  omega

theorem columnPlace_injective (c : Fin 8) : Injective (columnPlace c) := by
  intro j k h
  simp only [columnPlace, Fin.mk.injEq] at h
  omega

theorem existsUnique_rowPlace (i : Fin 128) :
    ∃! w : Fin 8 × Fin 16, rowPlace w.1 w.2 = i := by
  refine ⟨(⟨i / 16, by omega⟩, ⟨i % 16, by omega⟩), ?_, ?_⟩
  · apply Fin.ext
    simp only [rowPlace]
    omega
  · rintro ⟨r, k⟩ h
    simp only [rowPlace, Fin.ext_iff] at h
    simp only [Prod.mk.injEq, Fin.ext_iff]
    omega

theorem existsUnique_columnPlace (i : Fin 128) :
    ∃! w : Fin 8 × Fin 16, columnPlace w.1 w.2 = i := by
  refine ⟨(⟨i % 16 / 2, by omega⟩, ⟨2 * (i / 16) + i % 2, by omega⟩), ?_, ?_⟩
  · apply Fin.ext
    simp only [columnPlace]
    omega
  · rintro ⟨c, k⟩ h
    simp only [columnPlace, Fin.ext_iff] at h
    simp only [Prod.mk.injEq, Fin.ext_iff]
    omega

theorem permuteRows_bijective : Bijective permuteRows :=
  foldl_bijective fun r _ => round_bijective (rowPlace_injective r)

theorem permuteColumns_bijective : Bijective permuteColumns :=
  foldl_bijective fun c _ => round_bijective (columnPlace_injective c)

theorem words_injective : Injective Block.words := by
  rintro ⟨w⟩ ⟨w'⟩ h
  exact congrArg Block.mk h

theorem words_permute (b : Block) :
    (permute b).words = (permuteColumns ∘ permuteRows) b.words := rfl

/-- The permutation is a round over each row and then over each column. -/
theorem words_permute_eq_foldl (b : Block) :
    (permute b).words =
      (List.finRange 8).foldl (fun w c => round (columnPlace c) w)
        ((List.finRange 8).foldl (fun w r => round (rowPlace r) w) b.words) := by
  unfold permute permuteColumns permuteRows
  rfl

/-- No two blocks are mixed to the same one, and every block comes out of some.  A round is run over
each row, and then over each column.  It is made of eight steps, of which the first four use each of
its sixteen places once, and the last four again.  Each of the eight assignments of a step can be
undone in the word that it changes, hard addition among them.  Every word of a block belongs to one
row and to one column, and has one place there, and the round of a row or a column leaves all other
words as they are. -/
theorem permute_bijective :
    Bijective permute ∧
    (∀ b, (permute b).words =
      (List.finRange 8).foldl (fun w c => round (columnPlace c) w)
        ((List.finRange 8).foldl (fun w r => round (rowPlace r) w) b.words)) ∧
    (∀ place w, round place w =
      quads.toList.foldl (fun w q => mixAt step w (q.map place)) w) ∧
    ((quads.toList.take 4).flatMap Four.toList).Perm (List.finRange 16) ∧
    ((quads.toList.drop 4).flatMap Four.toList).Perm (List.finRange 16) ∧
    (∀ q, step q = updates.foldl Four.update q) ∧
    (∀ f ∈ updates, ∀ y, Bijective (f · y)) ∧
    (∀ x y, (hardAdd x y).toNat =
      (x.toNat + y.toNat + 2 * (x.toNat % 2 ^ 32) * (y.toNat % 2 ^ 32)) % 2 ^ 64) ∧
    (∀ i, ∃! w : Fin 8 × Fin 16, rowPlace w.1 w.2 = i) ∧
    (∀ i, ∃! w : Fin 8 × Fin 16, columnPlace w.1 w.2 = i) ∧
    ∀ (place : Fin 16 → Fin 128) (w : Vector UInt64 128) (i : Fin 128), (∀ k, place k ≠ i) →
      (round place w)[i] = w[i] := by
  refine ⟨?_, words_permute_eq_foldl, fun _ _ => rfl, perm_quads_columns, perm_quads_diagonals,
    step_eq_foldl, fun _ hf => updates_bijective hf, toNat_hardAdd, existsUnique_rowPlace,
    existsUnique_columnPlace, fun _ w _ h => getElem_round_of_ne h w⟩
  have hwords := permuteColumns_bijective.comp permuteRows_bijective
  constructor
  · intro a b h
    have h' := congrArg Block.words h
    rw [words_permute, words_permute] at h'
    exact words_injective (hwords.1 h')
  · intro b
    obtain ⟨w, hw⟩ := hwords.2 b.words
    refine ⟨⟨w⟩, words_injective ?_⟩
    rw [words_permute]
    exact hw

end Block

end MemoryHard
