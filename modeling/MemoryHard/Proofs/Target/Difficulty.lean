import Mathlib.Data.Nat.Size
import Mathlib.Tactic.Ring
import Mathlib.Tactic.SplitIfs
import MemoryHard.Target

/-!
# MemoryHard.Proofs.Target.Difficulty — targets, digests and their leading zeros

Strings of bytes of one length are in dictionary order as the numbers they stand for are in order.
The leading zero bits of such a string and the binary digits of its number make up its length.  So
the target for some leading zero bits, the largest number that has them, is met by the digests that
have them too.

* `Bytes.beNat_cons`, `Bytes.beNat_lt` — the number of a string;
* `Bytes.atMost_iff` — the order;
* `leadingZeros_add_size`, `le_leadingZeros_iff` — leading zeros and binary digits;
* `Target.beNat_difficultyBytes` — the number of a target;
* `Target.isMetBy_iff`, `Target.difficulty_exact` — digests that meet a target.
-/

namespace MemoryHard

/-! ## Numbers and their order -/

namespace Bytes

variable {x y : UInt8} {xs ys : Bytes}

theorem foldl_eq_add_beNat (n : Nat) (xs : Bytes) :
    xs.foldl (fun n x => 256 * n + x.toNat) n = n * 2 ^ (8 * xs.length) + beNat xs := by
  induction xs generalizing n with
  | nil => simp [beNat]
  | cons x xs ih =>
    have hpow : 2 ^ (8 * (xs.length + 1)) = 256 * 2 ^ (8 * xs.length) := by
      rw [Nat.mul_succ, Nat.add_comm, Nat.pow_add]
    rw [beNat, List.foldl_cons, List.foldl_cons, ih, ih (256 * 0 + x.toNat), List.length_cons, hpow]
    ring

/-- The first byte is the most significant one. -/
theorem beNat_cons (x : UInt8) (xs : Bytes) :
    beNat (x :: xs) = x.toNat * 2 ^ (8 * xs.length) + beNat xs := by
  rw [beNat, List.foldl_cons, Nat.mul_zero, Nat.zero_add, foldl_eq_add_beNat]

theorem beNat_lt (xs : Bytes) : beNat xs < 2 ^ (8 * xs.length) := by
  induction xs with
  | nil => simp [beNat]
  | cons x xs ih =>
    have hx : x.toNat + 1 ≤ 256 := x.toNat_lt
    calc beNat (x :: xs)
        < x.toNat * 2 ^ (8 * xs.length) + 2 ^ (8 * xs.length) := by
          rw [beNat_cons]
          exact Nat.add_lt_add_left ih _
      _ = (x.toNat + 1) * 2 ^ (8 * xs.length) := (Nat.succ_mul _ _).symm
      _ ≤ 256 * 2 ^ (8 * xs.length) := Nat.mul_le_mul_right _ hx
      _ = 2 ^ (8 * (x :: xs).length) := by
          rw [List.length_cons, Nat.mul_succ, Nat.add_comm, Nat.pow_add]

/-- A smaller first byte makes a smaller number, whatever follows. -/
theorem beNat_cons_lt (hlen : xs.length = ys.length) (h : x.toNat < y.toNat) :
    beNat (x :: xs) < beNat (y :: ys) := by
  calc beNat (x :: xs)
      < x.toNat * 2 ^ (8 * xs.length) + 2 ^ (8 * xs.length) := by
        rw [beNat_cons]
        exact Nat.add_lt_add_left (beNat_lt xs) _
    _ = (x.toNat + 1) * 2 ^ (8 * ys.length) := by rw [hlen, Nat.succ_mul x.toNat]
    _ ≤ y.toNat * 2 ^ (8 * ys.length) := Nat.mul_le_mul_right _ h
    _ ≤ beNat (y :: ys) := by
        rw [beNat_cons]
        exact Nat.le_add_right _ _

/-- In strings of one length the dictionary order is that of the numbers. -/
theorem atMost_iff (hlen : xs.length = ys.length) :
    atMost xs ys = true ↔ beNat xs ≤ beNat ys := by
  induction xs generalizing ys with
  | nil => simp [atMost, beNat]
  | cons x xs ih =>
    cases ys with
    | nil => cases hlen
    | cons y ys =>
      have htail : xs.length = ys.length := Nat.succ.inj hlen
      rw [atMost, Bool.or_eq_true, Bool.and_eq_true, decide_eq_true_iff, beq_iff_eq, ih htail,
        UInt8.lt_iff_toNat_lt]
      -- the first byte decides, unless it is the same in both
      rcases Nat.lt_trichotomy x.toNat y.toNat with hlt | heq | hgt
      · have := beNat_cons_lt htail hlt
        simp only [hlt, true_or, true_iff]
        omega
      · have hxy : x = y := UInt8.toNat_inj.1 heq
        rw [beNat_cons, beNat_cons, hxy, htail]
        simp
      · have := beNat_cons_lt htail.symm hgt
        have hne : x ≠ y := fun h => by simp [h] at hgt
        simp only [hne, false_and, or_false]
        omega

end Bytes

open MemoryHard.Bytes

/-! ## Leading zeros -/

/-- The leading zero bits of a string and the binary digits of its number make up its length. -/
theorem leadingZeros_add_size (xs : Bytes) :
    leadingZeros xs + (beNat xs).size = 8 * xs.length := by
  induction xs with
  | nil => rfl
  | cons x xs ih =>
    rw [leadingZeros, List.length_cons]
    split_ifs with h0
    · have hnum : beNat (x :: xs) = beNat xs := by
        rw [beNat_cons, h0]
        simp
      rw [hnum]
      omega
    · -- the highest digit is that of the first byte
      have hx : x.toNat ≠ 0 := fun h => h0 (UInt8.toNat_inj.1 h)
      have hdigits : x.toNat.log2 < 8 := (Nat.log2_lt hx).2 x.toNat_lt
      have hlow : 2 ^ x.toNat.log2 ≤ x.toNat := Nat.log2_self_le hx
      have hhigh : x.toNat + 1 ≤ 2 ^ (x.toNat.log2 + 1) := Nat.lt_log2_self
      have hle : 2 ^ (x.toNat.log2 + 8 * xs.length) ≤ beNat (x :: xs) := by
        rw [beNat_cons, Nat.pow_add]
        exact Nat.le_trans (Nat.mul_le_mul_right _ hlow) (Nat.le_add_right _ _)
      have hlt : beNat (x :: xs) < 2 ^ (x.toNat.log2 + 1 + 8 * xs.length) := by
        have htop := Nat.mul_le_mul_right (2 ^ (8 * xs.length)) hhigh
        have htail := beNat_lt xs
        rw [Nat.succ_mul] at htop
        rw [beNat_cons, Nat.pow_add]
        omega
      have h1 := Nat.lt_size.2 hle
      have h2 := Nat.size_le.2 hlt
      omega

/-- A string begins with `n` zero bits just if its number fits into the bits behind them. -/
theorem le_leadingZeros_iff {n : Nat} {xs : Bytes} (h : n ≤ 8 * xs.length) :
    n ≤ leadingZeros xs ↔ beNat xs < 2 ^ (8 * xs.length - n) := by
  have hsum := leadingZeros_add_size xs
  rw [← Nat.size_le]
  omega

/-! ## Targets -/

namespace Target

/-- The first `n` bytes of the target for `bits` leading zero bits. -/
def difficultyBytes (bits n : Nat) : Bytes := (List.range n).map (difficultyByte bits)

theorem toNat_difficultyByte_zero (bits : Nat) :
    (difficultyByte bits 0).toNat + 1 = 2 ^ (8 - bits) := by
  rcases Nat.lt_or_ge bits 8 with h | h
  · have hall : ∀ bits < 8, (difficultyByte bits 0).toNat + 1 = 2 ^ (8 - bits) := by decide
    exact hall bits h
  · have hpos : 0 < bits / 8 := Nat.div_pos h (by decide)
    rw [difficultyByte, if_pos hpos, Nat.sub_eq_zero_of_le h]
    rfl

/-- Behind its first byte a target is the one for eight bits less. -/
theorem difficultyByte_succ (bits i : Nat) :
    difficultyByte bits (i + 1) = difficultyByte (bits - 8) i := by
  rcases Nat.lt_or_ge bits 8 with h | h
  · have hdiv : bits / 8 = 0 := Nat.div_eq_of_lt h
    rw [Nat.sub_eq_zero_of_le h.le, difficultyByte, difficultyByte, hdiv, if_neg (by omega),
      if_neg (by omega), if_neg (by omega)]
    split_ifs <;> rfl
  · obtain ⟨rest, rfl⟩ := Nat.exists_eq_add_of_le h
    have hdiv : (8 + rest) / 8 = rest / 8 + 1 := by omega
    have hmod : (8 + rest) % 8 = rest % 8 := by omega
    rw [Nat.add_sub_cancel_left, difficultyByte, difficultyByte, hdiv, hmod]
    simp only [Nat.add_lt_add_iff_right, Nat.add_right_cancel_iff]

theorem difficultyBytes_succ (bits n : Nat) :
    difficultyBytes bits (n + 1) = difficultyByte bits 0 :: difficultyBytes (bits - 8) n := by
  rw [difficultyBytes, List.range_succ_eq_map, List.map_cons, List.map_map]
  congr 1
  exact List.map_congr_left fun i _ => difficultyByte_succ bits i

theorem length_difficultyBytes (bits n : Nat) : (difficultyBytes bits n).length = n := by
  rw [difficultyBytes, List.length_map, List.length_range]

/-- A target is the largest number with its leading zeros. -/
theorem beNat_difficultyBytes {bits n : Nat} (h : bits ≤ 8 * n) :
    beNat (difficultyBytes bits n) + 1 = 2 ^ (8 * n - bits) := by
  induction n generalizing bits with
  | zero =>
    obtain rfl : bits = 0 := by omega
    rfl
  | succ n ih =>
    have htail := ih (show bits - 8 ≤ 8 * n by omega)
    have hfirst := toNat_difficultyByte_zero bits
    rw [difficultyBytes_succ, beNat_cons, length_difficultyBytes, Nat.add_assoc, htail]
    rcases Nat.lt_or_ge bits 8 with hbits | hbits
    · have hexp : 8 * (n + 1) - bits = 8 - bits + 8 * n := by omega
      have hzero : 8 * n - (bits - 8) = 8 * n := by omega
      rw [hexp, hzero, Nat.pow_add, ← hfirst, Nat.succ_mul (difficultyByte bits 0).toNat]
    · have hexp : 8 * (n + 1) - bits = 8 * n - (bits - 8) := by omega
      rw [Nat.sub_eq_zero_of_le hbits] at hfirst
      rw [hexp, Nat.succ.inj hfirst, Nat.zero_mul, Nat.zero_add]

theorem ofDifficulty_eq_ok {bits : Nat} (h : bits ≤ digestBits) :
    ofDifficulty bits = .ok ⟨⟨difficultyBytes bits 32, length_difficultyBytes bits 32⟩⟩ :=
  if_neg (Nat.not_lt.2 h)

theorem isMetBy_iff (t : Target) (d : WalkDigest) :
    t.isMetBy d = true ↔ beNat d.toList ≤ beNat t.bytes.toList :=
  atMost_iff (d.length_eq.trans t.bytes.length_eq.symm)

/-- A digest meets a target if it is not above it as a number.  For up to 256 bits there is a
target, which is the largest number with so many leading zeros and is met by just the digests with
so many; for more bits there is none. -/
theorem difficulty_exact :
    (∀ (t : Target) (d : WalkDigest),
      t.isMetBy d = true ↔ beNat d.toList ≤ beNat t.bytes.toList) ∧
    (∀ bits ≤ 256, ∃ t, ofDifficulty bits = .ok t ∧
      beNat t.bytes.toList + 1 = 2 ^ (256 - bits) ∧
      ∀ d : WalkDigest,
        (t.isMetBy d = true ↔ bits ≤ leadingZeros d.toList) ∧
        (bits ≤ leadingZeros d.toList ↔ beNat d.toList < 2 ^ (256 - bits))) ∧
    ∀ bits > 256, ofDifficulty bits = .error (.parameter (.difficulty bits)) := by
  refine ⟨isMetBy_iff, ?_, fun bits hbits => if_pos hbits⟩
  intro bits hbits
  have hnumber : beNat (difficultyBytes bits 32) + 1 = 2 ^ (256 - bits) :=
    beNat_difficultyBytes hbits
  refine ⟨_, ofDifficulty_eq_ok hbits, hnumber, fun d => ?_⟩
  have hlength : 8 * d.toList.length = 256 := by rw [d.length_eq]
  have hzeros : bits ≤ leadingZeros d.toList ↔ beNat d.toList < 2 ^ (256 - bits) := by
    rw [le_leadingZeros_iff (hlength.symm ▸ hbits), hlength]
  refine ⟨?_, hzeros⟩
  rw [hzeros, isMetBy_iff, ← hnumber]
  exact Nat.lt_succ_iff.symm

/-- 21 bits end in the middle of the third byte. -/
theorem difficulty_exact_twenty_one :
    21 ≤ 256 ∧ ∃ t, ofDifficulty 21 = .ok t ∧ t.bytes.toList.take 4 = [0, 0, 7, 255] ∧
      ∀ d : WalkDigest, t.isMetBy d = true ↔ 21 ≤ leadingZeros d.toList := by
  obtain ⟨t, ht, -, hmet⟩ := difficulty_exact.2.1 21 (by decide)
  refine ⟨by decide, t, ht, ?_, fun d => (hmet d).1⟩
  cases ht
  decide

end Target

end MemoryHard
