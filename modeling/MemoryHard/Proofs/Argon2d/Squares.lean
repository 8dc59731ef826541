import MemoryHard.Proofs.Argon2d.Compression
import MemoryHard.Proofs.Block.Encoding
import MemoryHard.Proofs.Block.Permutation
import MemoryHard.Proofs.Block.Xor

/-!
# MemoryHard.Proofs.Argon2d.Squares — a block as a square of registers

Two neighbouring words of a block make a register.  Read in this way, deriving a block without a
binding is the compression function of RFC 9106, and the bytes of a block are those that the RFC
has for it.

* `toBitVec_hardAdd`, `toBitVec_rotateRight64`, `mixWords_eq_step` — words;
* `wordsAt`, `wordsAt_round`, `wordsAt_rounds` — the words at some places, and rounds over them;
* `Block.square` — the registers of a block;
* `Block.square_permute`, `Block.square_derive` — the permutation and the derivation;
* `Block.square_ofBytes`, `Block.toBytes_square` — the bytes.
-/

namespace MemoryHard

open MemoryHard.Bytes MemoryHard.Digest Function

/-! ## Words -/

theorem toBitVec_lowHalf (x : UInt64) : (lowHalf x).toBitVec = Argon2d.trunc x.toBitVec := by
  apply BitVec.eq_of_toNat_eq
  have hlow : x.toBitVec.toNat % 2 ^ 32 < 2 ^ 64 :=
    Nat.lt_of_lt_of_le (Nat.mod_lt _ (by decide)) (by decide)
  rw [Argon2d.trunc, BitVec.toNat_setWidth, BitVec.toNat_setWidth, Nat.mod_eq_of_lt hlow]
  exact toNat_lowHalf x

theorem toBitVec_hardAdd (x y : UInt64) :
    (hardAdd x y).toBitVec = x.toBitVec + y.toBitVec +
      2 * Argon2d.trunc x.toBitVec * Argon2d.trunc y.toBitVec := by
  rw [hardAdd, UInt64.toBitVec_add, UInt64.toBitVec_add, UInt64.toBitVec_mul, UInt64.toBitVec_mul,
    toBitVec_lowHalf, toBitVec_lowHalf, ← BitVec.mul_assoc]
  rfl

theorem toBitVec_rotateRight64 (x : UInt64) {k : UInt64} (hpos : 0 < k.toNat) (hk : k.toNat < 64) :
    (rotateRight64 x k).toBitVec = x.toBitVec.rotateRight k.toNat := by
  have hsub : (64 - k).toNat = 64 - k.toNat :=
    UInt64.toNat_sub_of_le _ _ (UInt64.le_iff_toNat_le.2 (Nat.le_of_lt hk))
  apply BitVec.eq_of_toNat_eq
  have hback : (64 - k.toNat) % 64 = 64 - k.toNat := Nat.mod_eq_of_lt (by omega)
  show (rotateRight64 x k).toNat = _
  rw [BitVec.toNat_rotateRight, rotateRight64, UInt64.toNat_or, UInt64.toNat_shiftRight,
    UInt64.toNat_shiftLeft, hsub, Nat.mod_eq_of_lt hk, hback]
  rfl

namespace Argon2d

/-- Mixing four words is a step on them. -/
theorem mixWords_eq_step (q : Four UInt64) :
    mixWords q.a.toBitVec q.b.toBitVec q.c.toBitVec q.d.toBitVec =
      let r := Block.step q
      (r.a.toBitVec, r.b.toBitVec, r.c.toBitVec, r.d.toBitVec) := by
  simp (disch := decide) only [mixWords, Block.step, toBitVec_hardAdd, toBitVec_rotateRight64,
    UInt64.toBitVec_xor]
  rfl

/-! ## Words at some places -/

variable {place : Fin 16 → Fin 128} {w : Vector UInt64 128}

/-- The words at some places. -/
def wordsAt (place : Fin 16 → Fin 128) (w : Vector UInt64 128) (k : Fin 16) : Word :=
  w[place k].toBitVec

/-- A step inside a block mixes four of the words. -/
theorem wordsAt_mixAt (hplace : Injective place) {q : Four (Fin 16)} (hq : q.IsApart) :
    wordsAt place (Digest.mixAt Block.step w (q.map place)) =
      mixAt (wordsAt place w) q.a q.b q.c q.d := by
  have hpick := pickAt_mixAt (f := Block.step) (v := w) (hq.map hplace)
  have hself (k : Fin 16) : (⟨k % 16, Nat.mod_lt k (by decide)⟩ : Fin 16) = k :=
    Fin.ext (Nat.mod_eq_of_lt k.isLt)
  have hmix : mixWords (wordsAt place w q.a) (wordsAt place w q.b) (wordsAt place w q.c)
      (wordsAt place w q.d) = _ := mixWords_eq_step (pickAt w (q.map place))
  rw [← hpick] at hmix
  funext k
  unfold mixAt
  dsimp only
  rw [hself, hself, hself, hself, hmix]
  simp only [← Fin.ext_iff]
  -- the four words that are mixed, and then any other
  split_ifs with ha hb hc hd
  · rw [ha]
    rfl
  · rw [hb]
    rfl
  · rw [hc]
    rfl
  · rw [hd]
    rfl
  · have hother := getElem_mixAt_of_ne (f := Block.step) (v := w) (q := q.map place) (i := place k)
      ⟨hplace.ne ha, hplace.ne hb, hplace.ne hc, hplace.ne hd⟩
    exact congrArg UInt64.toBitVec hother

theorem wordsOf_registersOf (v : Fin 16 → Word) : wordsOf (registersOf v) = v := by
  funext k
  unfold wordsOf registersOf
  dsimp only
  split_ifs with heven
  · congr 1
    apply Fin.ext
    simp only [lowPlace]
    omega
  · congr 1
    apply Fin.ext
    simp only [highPlace]
    omega

/-- A round over some words permutes the registers they make. -/
theorem registersOf_round (hplace : Injective place) (w : Vector UInt64 128) :
    registersOf (wordsAt place (Block.round place w)) =
      permuteRegisters (registersOf (wordsAt place w)) := by
  have hsteps (qs : List (Four (Fin 16))) (hqs : ∀ q ∈ qs, q.IsApart) :
      wordsAt place (qs.foldl (fun w q => Digest.mixAt Block.step w (q.map place)) w) =
        qs.foldl (fun v q => mixAt v q.a q.b q.c q.d) (wordsAt place w) := by
    induction qs generalizing w with
    | nil => rfl
    | cons q qs ih =>
      rw [List.foldl_cons, List.foldl_cons, ← wordsAt_mixAt hplace (hqs q List.mem_cons_self)]
      exact ih _ fun q' hq' => hqs q' (List.mem_cons_of_mem q hq')
  unfold Block.round
  rw [hsteps _ fun q hq => Block.isApart_of_mem_quads hq, permuteRegisters, wordsOf_registersOf]
  rfl

/-! ## Rounds over all rows or columns -/

section
variable {places : Fin 8 → Fin 16 → Fin 128} {rs : List (Fin 8)} {r : Fin 8}

theorem uncurry_injective (h : ∀ i, ∃! w : Fin 8 × Fin 16, places w.1 w.2 = i) :
    Injective (uncurry places) :=
  fun _ y heq => (h (places y.1 y.2)).unique heq rfl

theorem wordsAt_round_of_ne (h : Injective (uncurry places)) {r' : Fin 8} (hne : r' ≠ r)
    (w : Vector UInt64 128) :
    wordsAt (places r) (Block.round (places r') w) = wordsAt (places r) w := by
  funext k
  have hother (k' : Fin 16) : places r' k' ≠ places r k := fun heq =>
    hne (Prod.mk.inj (@h (r', k') (r, k) heq)).1
  exact congrArg UInt64.toBitVec (Block.getElem_round_of_ne hother w)

theorem wordsAt_rounds_of_notMem (h : Injective (uncurry places)) (hr : r ∉ rs)
    (w : Vector UInt64 128) :
    wordsAt (places r) (rs.foldl (fun w r => Block.round (places r) w) w) =
      wordsAt (places r) w := by
  induction rs generalizing w with
  | nil => rfl
  | cons r' rs ih =>
    rw [List.foldl_cons, ih fun hmem => hr (List.mem_cons_of_mem r' hmem)]
    refine wordsAt_round_of_ne h ?_ w
    rintro rfl
    exact hr List.mem_cons_self

/-- Rounds that share out the words among them permute the registers of each. -/
theorem registersOf_rounds (h : Injective (uncurry places)) (hrs : rs.Nodup) (hr : r ∈ rs)
    (w : Vector UInt64 128) :
    registersOf (wordsAt (places r) (rs.foldl (fun w r => Block.round (places r) w) w)) =
      permuteRegisters (registersOf (wordsAt (places r) w)) := by
  induction rs generalizing w with
  | nil => cases hr
  | cons r' rs ih =>
    obtain ⟨hout, hrs⟩ := List.nodup_cons.1 hrs
    rw [List.foldl_cons]
    rcases List.mem_cons.1 hr with rfl | hmem
    · have hplace : Injective (places r) := fun k k' hk => (Prod.mk.inj (@h (r, k) (r, k') hk)).2
      rw [wordsAt_rounds_of_notMem h hout, registersOf_round hplace]
    · have hne : r' ≠ r := ne_of_mem_of_not_mem hmem hout |>.symm
      rw [ih hrs hmem, wordsAt_round_of_ne h hne]

end

end Argon2d

namespace Bytes

theorem getElem_words64 {count k : Nat} {b : Bytes} (h : k < (words64 count b).length) :
    (words64 count b)[k] = word64 (b.drop (8 * k)) := by
  induction count generalizing k b with
  | zero => exact absurd h (Nat.not_lt_zero k)
  | succ count ih =>
    cases k with
    | zero => rfl
    | succ k =>
      have hdrop : (b.drop 8).drop (8 * k) = b.drop (8 * (k + 1)) := by
        rw [List.drop_drop]
        congr 1
        omega
      rw [← hdrop]
      exact ih _

end Bytes

/-! ## Blocks -/

namespace Block

open Argon2d

/-- The registers of a block. -/
def square (b : Block) : Square where
  register i := registersOf (wordsAt (rowPlace i) b.words)

theorem register_column (b : Block) (j : Fin 8) :
    (fun i => b.square.register i j) = registersOf (wordsAt (columnPlace j) b.words) := by
  funext i
  have hlow : rowPlace i (lowPlace j) = columnPlace j (lowPlace i) := by
    apply Fin.ext
    simp only [rowPlace, columnPlace, lowPlace]
    omega
  have hhigh : rowPlace i (highPlace j) = columnPlace j (highPlace i) := by
    apply Fin.ext
    simp only [rowPlace, columnPlace, highPlace]
    omega
  let word (p : Fin 128) : Word := b.words[p].toBitVec
  exact congrArg₂ Register.mk (congrArg word hlow) (congrArg word hhigh)

/-- The permutation of a block permutes the registers of every row, and then those of every
column. -/
theorem square_permute (b : Block) :
    (permute b).square = ⟨fun i j =>
      permuteRegisters (fun k => permuteRegisters (b.square.register k) j) i⟩ := by
  have hrows (i : Fin 8) : (⟨permuteRows b.words⟩ : Block).square.register i =
      permuteRegisters (b.square.register i) :=
    registersOf_rounds (uncurry_injective existsUnique_rowPlace) (List.nodup_finRange 8)
      (List.mem_finRange i) b.words
  have hcolumns (j : Fin 8) : (fun i => (permute b).square.register i j) =
      permuteRegisters fun k => (⟨permuteRows b.words⟩ : Block).square.register k j := by
    rw [register_column, register_column]
    exact registersOf_rounds (uncurry_injective existsUnique_columnPlace) (List.nodup_finRange 8)
      (List.mem_finRange j) _
  refine congrArg Square.mk ?_
  funext i j
  simp only [← hrows]
  exact congrFun (hcolumns j) i

theorem square_xor (a b : Block) : (a ^^^ b).square = a.square ^^^ b.square := by
  refine congrArg Square.mk ?_
  funext i j
  have hword (k : Fin 128) : (a ^^^ b).words[k].toBitVec =
      a.words[k].toBitVec ^^^ b.words[k].toBitVec :=
    congrArg UInt64.toBitVec (getElem_xor a b k.isLt)
  exact congrArg₂ Register.mk (hword _) (hword _)

theorem square_zero : zero.square = Square.zero := by
  refine congrArg Square.mk ?_
  funext i j
  have hword (k : Fin 128) : zero.words[k].toBitVec = 0 :=
    congrArg UInt64.toBitVec (Vector.getElem_replicate _)
  exact congrArg₂ Register.mk (hword _) (hword _)

/-- A block is derived without a binding by the compression function. -/
theorem square_derive (previous reference : Block) :
    (derive previous reference none none).square = compress previous.square reference.square := by
  have hmix := square_xor previous reference
  rw [derive_none, xor_comm reference, square_xor, square_permute, hmix]
  rfl

/-! ## Bytes -/

theorem toBitVec_word64 (b : Bytes) : (word64 b).toBitVec = BitVec.ofNat 64 (leNat (b.take 8)) := by
  rw [← toNat_wordOf (Nat.le_refl 8)]
  exact (BitVec.ofNat_toNat 64 _).trans (BitVec.setWidth_eq _) |>.symm

theorem square_ofBytes (bytes : Bytes) : (ofBytes bytes).square = Square.ofBytes bytes := by
  refine congrArg Square.mk ?_
  funext i j
  have hword (k : Fin 128) : (ofBytes bytes).words[k].toBitVec =
      BitVec.ofNat 64 (leNat ((bytes.drop (8 * k)).take 8)) := by
    rw [← toBitVec_word64]
    exact congrArg UInt64.toBitVec (getElem_words64 (by simp))
  exact congrArg₂ Register.mk (hword _) (hword _)

/-- Row by row and register by register, all words are there in order. -/
theorem finRange_eq_flatMap_rowPlace :
    List.finRange 128 = (List.finRange 8).flatMap fun i =>
      (List.finRange 8).flatMap fun j =>
        [rowPlace i (lowPlace j), rowPlace i (highPlace j)] := by
  decide

theorem toBytes_square (b : Block) : b.square.toBytes = b.toBytes := by
  have hwords : b.words.toList = (List.finRange 128).map fun k => b.words[k] := by
    apply List.ext_getElem <;> simp
  rw [toBytes_eq_flatMap, hwords, finRange_eq_flatMap_rowPlace]
  simp only [List.map_flatMap, List.flatMap_assoc, List.map_cons, List.map_nil, List.flatMap_cons,
    List.flatMap_nil, List.append_nil, le64_eq_leBytes]
  rfl

end Block

end MemoryHard
