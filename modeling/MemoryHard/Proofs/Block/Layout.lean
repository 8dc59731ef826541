import MemoryHard.Challenge
import MemoryHard.Proofs.Block.Accumulation
import MemoryHard.Proofs.Block.Encoding

/-!
# MemoryHard.Proofs.Block.Layout — where the bytes of a bound block stand

Word `i` of a block is its bytes `8 * i` to `8 * i + 7`.  The words of a challenge are read from its
bytes, put together in pairs, and written as bytes again with the block.  All of this goes from the
least significant byte to the most, so a bound block has the challenge among its bytes as it is.

* `getElem?_toBytes` — the bytes of a word;
* `Binding.le64_pair`, `Challenge.le32_jobWords` — a pair of words, and a word of a challenge;
* `Challenge.le64_pair_jobWords` — so a pair of these gives eight bytes of the challenge back;
* `getElem?_toBytes_embed` — every byte of a bound block;
* `bytes_exact` — blocks and their bytes, bound or not.
-/

namespace MemoryHard

open MemoryHard.Bytes

/-! ## Words and their bytes -/

namespace Bytes

theorem leNat_append (a b : Bytes) :
    leNat (a ++ b) = leNat a + Nat.pow 256 a.length * leNat b := by
  induction a with
  | nil => simp [leNat]
  | cons x xs ih =>
    have hpow : Nat.pow 256 (xs.length + 1) = 256 * Nat.pow 256 xs.length := Nat.mul_comm _ _
    rw [List.cons_append, leNat, leNat, ih, List.length_cons, hpow, Nat.mul_add, Nat.mul_assoc,
      Nat.add_assoc]

theorem leNat_le32 (x : UInt32) : leNat (le32 x) = x.toNat := by
  rw [le32, leNat_leBytes]
  exact Nat.mod_eq_of_lt x.toNat_lt

theorem le32_ofNat_leNat {b : Bytes} (h : b.length = 4) : le32 (UInt32.ofNat (leNat b)) = b := by
  have hlt : leNat b < Nat.pow 256 4 := by
    have hlt := leNat_lt b
    rwa [h] at hlt
  have hword : (UInt32.ofNat (leNat b)).toNat = leNat b := UInt32.toNat_ofNat_of_lt' hlt
  have hback := leBytes_leNat b
  rwa [h, ← hword] at hback

/-- Words stand one after the other, each in eight bytes. -/
theorem getElem?_flatMap_le64 (xs : List UInt64) (i : Nat) {j : Nat} (hj : j < 8) :
    (xs.flatMap le64)[8 * i + j]? = xs[i]?.bind fun x => (le64 x)[j]? := by
  induction xs generalizing i with
  | nil => simp
  | cons x xs ih =>
    have hlen := length_le64 x
    rw [List.flatMap_cons]
    cases i with
    | zero =>
      rw [List.getElem?_append_left (by omega), Nat.mul_zero, Nat.zero_add]
      rfl
    | succ i =>
      have hplace : 8 * (i + 1) + j - (le64 x).length = 8 * i + j := by omega
      rw [List.getElem?_append_right (by omega), hplace, ih, List.getElem?_cons_succ]

end Bytes

/-! ## Pairs of words -/

namespace Binding

theorem toNat_pair (low high : UInt32) :
    (pair low high).toNat = low.toNat + Nat.pow 256 4 * high.toNat := by
  have hlow : low.toNat < 2 ^ 32 := low.toNat_lt
  have hhigh : high.toNat < 2 ^ 32 := high.toNat_lt
  have hshift : (high.toUInt64 <<< 32).toNat = high.toNat <<< 32 := by
    rw [UInt64.toNat_shiftLeft, UInt32.toNat_toUInt64]
    show (high.toNat <<< 32) % 2 ^ 64 = _
    rw [Nat.shiftLeft_eq]
    exact Nat.mod_eq_of_lt (by omega)
  have hpow : Nat.pow 256 4 = 2 ^ 32 := rfl
  rw [pair, UInt64.toNat_or, hshift, UInt32.toNat_toUInt64, Nat.or_comm,
    ← Nat.shiftLeft_add_eq_or_of_lt hlow, Nat.shiftLeft_eq, hpow, Nat.add_comm, Nat.mul_comm]

/-- The bytes of the low half come first. -/
theorem le64_pair (low high : UInt32) : le64 (pair low high) = le32 low ++ le32 high := by
  have hnum : leNat (le32 low ++ le32 high) = (pair low high).toNat := by
    rw [leNat_append, leNat_le32, leNat_le32, length_le32, toNat_pair]
  have hback := leBytes_leNat (le32 low ++ le32 high)
  rw [List.length_append, length_le32, length_le32, hnum] at hback
  rw [le64_eq_leBytes, hback]

/-- Each pair of words of the job has a word of the block. -/
theorem getElem_embed_job (b : Binding) (block : Block) {i : Nat} (hi : i < 4) :
    (b.embed block).words[16 + i] = pair b.job[2 * i] b.job[2 * i + 1] := by
  rw [getElem_embed]
  match i, hi with
  | 0, _ | 1, _ | 2, _ | 3, _ => rfl

end Binding

/-! ## The words of a challenge -/

namespace Challenge

open Binding

variable (c : Challenge)

theorem le32_jobWords {i : Nat} (hi : i < 8) :
    le32 c.jobWords[i] = (c.bytes.toList.drop (4 * i)).take 4 := by
  have hlen : ((c.bytes.toList.drop (4 * i)).take 4).length = 4 := by
    rw [List.length_take, List.length_drop, c.bytes.length_eq]
    omega
  have hword : c.jobWords[i] = UInt32.ofNat (leNat ((c.bytes.toList.drop (4 * i)).take 4)) :=
    Vector.getElem_ofFn hi
  rw [hword, le32_ofNat_leNat hlen]

/-- The first byte is the lowest of the first word. -/
example : Challenge.jobWords ⟨⟨(List.range 32).map UInt8.ofNat, rfl⟩⟩ =
    #v[0x03020100, 0x07060504, 0x0b0a0908, 0x0f0e0d0c,
      0x13121110, 0x17161514, 0x1b1a1918, 0x1f1e1d1c] := by decide

theorem le64_pair_jobWords {i : Nat} (hi : i < 4) :
    le64 (pair c.jobWords[2 * i] c.jobWords[2 * i + 1]) =
      (c.bytes.toList.drop (8 * i)).take 8 := by
  have hlow : 4 * (2 * i) = 8 * i := by omega
  have hhigh : 4 * (2 * i + 1) = 8 * i + 4 := by omega
  rw [le64_pair, le32_jobWords, le32_jobWords, hlow, hhigh, ← List.drop_drop, ← List.take_add]

end Challenge

/-! ## The bytes of a block -/

namespace Block

open Binding

theorem toBytes_eq_flatMap_leBytes (b : Block) :
    b.toBytes = b.words.toList.flatMap fun x => leBytes 8 x.toNat := by
  rw [toBytes_eq_flatMap]
  exact congrArg b.words.toList.flatMap (funext le64_eq_leBytes)

theorem getElem?_toBytes (b : Block) {i j : Nat} (hi : i < 128) (hj : j < 8) :
    b.toBytes[8 * i + j]? = (le64 b.words[i])[j]? := by
  have hword : b.words.toList[i]? = some b.words[i] := by
    rw [Vector.getElem?_toList, Vector.getElem?_eq_getElem hi]
  rw [toBytes_eq_flatMap, getElem?_flatMap_le64 _ i hj, hword, Option.bind_some]

theorem getElem?_toBytes_of_le (b : Block) {k : Nat} (hk : byteLength ≤ k) :
    b.toBytes[k]? = none :=
  List.getElem?_eq_none (Nat.le_trans (Nat.le_of_eq (length_toBytes b)) hk)

section
variable (c : Challenge) (index : UInt64) (b : Block)

theorem getElem?_toBytes_embed_index {j : Nat} (hj : j < 8) :
    (Binding.embed ⟨c.jobWords, index⟩ b).toBytes[112 + j]? = (leBytes 8 index.toNat)[j]? := by
  rw [getElem?_toBytes _ (by decide : 14 < 128) hj, getElem_embed, if_pos rfl, le64_eq_leBytes]

/-- The words of a challenge stand in a block as the bytes that they were read from. -/
theorem getElem?_toBytes_embed_job {j : Nat} (hj : j < 32) :
    (Binding.embed ⟨c.jobWords, index⟩ b).toBytes[128 + j]? = c.bytes.toList[j]? := by
  -- byte `j` of the challenge is in its pair of words number `j / 8`
  have hi : j / 8 < 4 := by omega
  have hplace : 128 + j = 8 * (16 + j / 8) + j % 8 := by omega
  have hback : 8 * (j / 8) + j % 8 = j := Nat.div_add_mod j 8
  have hj8 : j % 8 < 8 := Nat.mod_lt j (by decide)
  rw [hplace, getElem?_toBytes _ (by omega) hj8, getElem_embed_job _ b hi,
    c.le64_pair_jobWords hi, List.getElem?_take_of_lt hj8, List.getElem?_drop, hback]

theorem getElem?_toBytes_embed_of_not_overwrites (binding : Binding) {k : Nat}
    (h : ¬Overwrites (k / 8)) : (binding.embed b).toBytes[k]? = b.toBytes[k]? := by
  rcases Nat.lt_or_ge k 1024 with hk | hk
  · have hi : k / 8 < 128 := by omega
    have hj : k % 8 < 8 := Nat.mod_lt k (by decide)
    rw [← Nat.div_add_mod k 8, getElem?_toBytes _ hi hj, getElem?_toBytes _ hi hj,
      getElem_embed_of_not_overwrites hi h]
  · rw [getElem?_toBytes_of_le _ hk, getElem?_toBytes_of_le _ hk]

theorem getElem?_toBytes_embed (k : Nat) :
    (Binding.embed ⟨c.jobWords, index⟩ b).toBytes[k]? =
      if 112 ≤ k ∧ k < 120 then (leBytes 8 index.toNat)[k - 112]?
      else if 128 ≤ k ∧ k < 160 then c.bytes.toList[k - 128]?
      else b.toBytes[k]? := by
  split_ifs with hindex hjob
  · obtain ⟨j, rfl⟩ := Nat.exists_eq_add_of_le hindex.1
    rw [getElem?_toBytes_embed_index c index b (by omega), Nat.add_sub_cancel_left]
  · obtain ⟨j, rfl⟩ := Nat.exists_eq_add_of_le hjob.1
    rw [getElem?_toBytes_embed_job c index b (by omega), Nat.add_sub_cancel_left]
  · -- words 14 and 16 to 19 are just these two runs of bytes
    have hfree : ¬Overwrites (k / 8) := by
      unfold Overwrites
      omega
    exact getElem?_toBytes_embed_of_not_overwrites b _ hfree

end

/-- A block is written word after word, each from its least significant byte on, and is read back
from these 1024 bytes; strings of another length are not read as a block.  In the bytes of a bound
block the index, least significant byte first, stands in place of the bytes 112 to 119, and the
challenge as it is in place of the bytes 128 to 159.  All other bytes are those of the block before
it was bound. -/
theorem bytes_exact :
    (∀ b : Block,
      b.toBytes = (b.words.toList.flatMap fun x => leBytes 8 x.toNat) ∧
      b.toBytes.length = 1024 ∧ ofBytes b.toBytes = b) ∧
    (∀ bytes : Bytes,
      ((ofBytes bytes).toBytes = bytes ↔ bytes.length = 1024) ∧
      ((ofBytes? bytes).isSome ↔ bytes.length = 1024) ∧
      ∀ b : Block, ofBytes? bytes = some b ↔ bytes = b.toBytes) ∧
    ∀ (c : Challenge) (index : UInt64) (b : Block) (k : Nat),
      (Binding.embed ⟨c.jobWords, index⟩ b).toBytes[k]? =
        if 112 ≤ k ∧ k < 120 then (leBytes 8 index.toNat)[k - 112]?
        else if 128 ≤ k ∧ k < 160 then c.bytes.toList[k - 128]?
        else b.toBytes[k]? := by
  refine ⟨fun b => ⟨toBytes_eq_flatMap_leBytes b, length_toBytes b, ofBytes_toBytes b⟩,
    fun bytes => ⟨?_, ?_, ?_⟩, ?_⟩
  · exact toBytes_ofBytes_eq_iff
  · exact isSome_ofBytes?
  · intro b
    exact ofBytes?_eq_some_iff
  · exact getElem?_toBytes_embed

end Block

end MemoryHard
