/-!
# MemoryHard.Bytes — byte strings

Byte strings are lists of bytes.  Numbers are written in them in little-endian order
(`leBytes`, read back by `leNat`), and read from them in big-endian order (`beNat`) where a
string of bytes is itself a number.  `FixedBytes n` is the type of the strings of length `n`.

* `length_leBytes` — `w` bytes are written;
* `leNat_leBytes` — reading back gives the number modulo `256 ^ w`;
* `leBytes_leNat` — writing back gives the bytes;
* `le64_eq_leBytes`, `toNat_wordOf` — the same for 64-bit words, which are taken apart by shifts.
-/

namespace MemoryHard

/-- A byte string. -/
abbrev Bytes := List UInt8

namespace Bytes

/-- Whether there is room for `n` bytes side by side: addresses differ by less than `2 ^ 63`. -/
def hasRoom (n : Nat) : Bool := n < 0x8000000000000000

/-! ## Little-endian numbers -/

/-- The `w` low bytes of `n`, least significant first. -/
def leBytes : (w : Nat) → (n : Nat) → Bytes
  | 0, _ => []
  | w + 1, n => UInt8.ofNat n :: leBytes w (n / 256)

/-- The number whose bytes are given, least significant first. -/
def leNat : Bytes → Nat
  | [] => 0
  | b :: bs => b.toNat + 256 * leNat bs

/-- Four bytes of a 32-bit word. -/
def le32 (x : UInt32) : Bytes := leBytes 4 x.toNat

/-- The `w` low bytes of a 64-bit word, least significant first. -/
def wordBytes : (w : Nat) → UInt64 → Bytes
  | 0, _ => []
  | w + 1, x => x.toUInt8 :: wordBytes w (x >>> 8)

/-- Eight bytes of a 64-bit word. -/
def le64 (x : UInt64) : Bytes := wordBytes 8 x

/-- The 64-bit word whose first `w` bytes are given; those that are missing are zero. -/
def wordOf : (w : Nat) → Bytes → UInt64
  | 0, _ => 0
  | _ + 1, [] => 0
  | w + 1, b :: bs => b.toUInt64 ||| wordOf w bs <<< 8

/-- The 64-bit word at the beginning of a byte string. -/
def word64 (b : Bytes) : UInt64 := wordOf 8 b

/-- The 32-bit word at the beginning of a byte string. -/
def word32 (b : Bytes) : UInt32 := (wordOf 4 b).toUInt32

/-- The first `count` 64-bit words of a byte string; bytes that are missing are zero. -/
def words64 : (count : Nat) → Bytes → List UInt64
  | 0, _ => []
  | count + 1, b => word64 b :: words64 count (b.drop 8)

/-- The first `count` 32-bit words of a byte string; bytes that are missing are zero. -/
def words32 : (count : Nat) → Bytes → List UInt32
  | 0, _ => []
  | count + 1, b => word32 b :: words32 count (b.drop 4)

/-- A byte string with the eight bytes of a 64-bit word in front. -/
def consWord (x : UInt64) (b : Bytes) : Bytes :=
  x.toUInt8 :: (x >>> 8).toUInt8 :: (x >>> 16).toUInt8 :: (x >>> 24).toUInt8 ::
    (x >>> 32).toUInt8 :: (x >>> 40).toUInt8 :: (x >>> 48).toUInt8 :: (x >>> 56).toUInt8 :: b

@[simp] theorem length_leBytes (w n : Nat) : (leBytes w n).length = w := by
  induction w generalizing n with
  | zero => rfl
  | succ w ih => simp [leBytes, ih]

theorem leNat_leBytes (w n : Nat) : leNat (leBytes w n) = n % Nat.pow 256 w := by
  induction w generalizing n with
  | zero => simp [leBytes, leNat, Nat.mod_one]
  | succ w ih =>
    have hpow : Nat.pow 256 (w + 1) = 256 * Nat.pow 256 w := Nat.mul_comm _ _
    rw [leBytes, leNat, ih, hpow, Nat.mod_mul]
    simp

theorem leBytes_leNat (b : Bytes) : leBytes b.length (leNat b) = b := by
  induction b with
  | nil => rfl
  | cons x xs ih =>
    have hx : x.toNat < 256 := x.toNat_lt
    have hq : (x.toNat + 256 * leNat xs) / 256 = leNat xs := by omega
    have hb : UInt8.ofNat (x.toNat + 256 * leNat xs) = x := by
      apply UInt8.toNat_inj.1
      simp
    simp only [List.length_cons, leBytes, leNat, hb, hq, ih]

@[simp] theorem length_le32 (x : UInt32) : (le32 x).length = 4 := length_leBytes 4 _

theorem wordBytes_eq_leBytes (w : Nat) (x : UInt64) : wordBytes w x = leBytes w x.toNat := by
  induction w generalizing x with
  | zero => rfl
  | succ w ih =>
    have hs : (x >>> 8).toNat = x.toNat / 256 := by
      rw [UInt64.toNat_shiftRight, Nat.shiftRight_eq_div_pow]
      rfl
    rw [wordBytes, leBytes, ih, hs]
    congr 1

theorem le64_eq_leBytes (x : UInt64) : le64 x = leBytes 8 x.toNat := wordBytes_eq_leBytes 8 x

theorem leNat_lt (b : Bytes) : leNat b < Nat.pow 256 b.length := by
  induction b with
  | nil => simp [leNat]
  | cons x xs ih =>
    have hx : x.toNat < 256 := x.toNat_lt
    have hpow : Nat.pow 256 (xs.length + 1) = 256 * Nat.pow 256 xs.length := Nat.mul_comm _ _
    rw [leNat, List.length_cons, hpow]
    omega

theorem toNat_wordOf {w : Nat} (h : w ≤ 8) (b : Bytes) : (wordOf w b).toNat = leNat (b.take w) := by
  induction w generalizing b with
  | zero => rfl
  | succ w ih =>
    cases b with
    | nil => rfl
    | cons x xs =>
      have hx : x.toNat < 2 ^ 8 := x.toNat_lt
      have hlt : leNat (xs.take w) < 256 ^ 7 :=
        Nat.lt_of_lt_of_le (leNat_lt _)
          (Nat.pow_le_pow_right (by decide) (by rw [List.length_take]; omega))
      have hw : (wordOf w xs <<< 8).toNat = leNat (xs.take w) <<< 8 := by
        rw [UInt64.toNat_shiftLeft, ih (by omega)]
        show (leNat (xs.take w) <<< 8) % 2 ^ 64 = _
        rw [Nat.shiftLeft_eq]
        exact Nat.mod_eq_of_lt (by omega)
      rw [wordOf, UInt64.toNat_or, hw, List.take_succ_cons, leNat, Nat.or_comm,
        UInt8.toNat_toUInt64, ← Nat.shiftLeft_add_eq_or_of_lt hx, Nat.shiftLeft_eq]
      omega

@[simp] theorem length_le64 (x : UInt64) : (le64 x).length = 8 := by
  rw [le64_eq_leBytes, length_leBytes]

theorem shiftRight_shiftRight {j k l : UInt64} (x : UInt64)
    (h : j.toNat % 64 + k.toNat % 64 = l.toNat % 64) : x >>> j >>> k = x >>> l := by
  apply UInt64.toNat_inj.1
  simp only [UInt64.toNat_shiftRight, ← Nat.shiftRight_add, h]

theorem consWord_eq_append (x : UInt64) (b : Bytes) : consWord x b = le64 x ++ b := by
  have h16 : x >>> 8 >>> 8 = x >>> 16 := shiftRight_shiftRight x rfl
  have h24 : x >>> 16 >>> 8 = x >>> 24 := shiftRight_shiftRight x rfl
  have h32 : x >>> 24 >>> 8 = x >>> 32 := shiftRight_shiftRight x rfl
  have h40 : x >>> 32 >>> 8 = x >>> 40 := shiftRight_shiftRight x rfl
  have h48 : x >>> 40 >>> 8 = x >>> 48 := shiftRight_shiftRight x rfl
  have h56 : x >>> 48 >>> 8 = x >>> 56 := shiftRight_shiftRight x rfl
  simp only [consWord, le64, wordBytes, h16, h24, h32, h40, h48, h56, List.cons_append,
    List.nil_append]

@[simp] theorem length_words64 (count : Nat) (b : Bytes) : (words64 count b).length = count := by
  induction count generalizing b with
  | zero => rfl
  | succ count ih => simp [words64, ih]

@[simp] theorem length_words32 (count : Nat) (b : Bytes) : (words32 count b).length = count := by
  induction count generalizing b with
  | zero => rfl
  | succ count ih => simp [words32, ih]

/-! ## Big-endian order -/

/-- The number whose bytes are given, most significant first. -/
def beNat (b : Bytes) : Nat := b.foldl (fun n x => 256 * n + x.toNat) 0

/-- Dictionary order: the first byte that differs decides, and a proper initial part is smaller. -/
def atMost : Bytes → Bytes → Bool
  | [], _ => true
  | _ :: _, [] => false
  | x :: xs, y :: ys => x < y || (x == y && atMost xs ys)

/-! ## Text -/

/-- The UTF-8 form of a text. -/
def utf8 (s : List Char) : Bytes := s.flatMap String.utf8EncodeChar

end Bytes

/-! ## Strings of a fixed length -/

/-- A byte string of exactly `n` bytes. -/
structure FixedBytes (n : Nat) where
  toList : Bytes
  length_eq : toList.length = n
deriving DecidableEq

namespace FixedBytes

/-- The string `b` itself, if it has `n` bytes. -/
def ofBytes? (n : Nat) (b : Bytes) : Option (FixedBytes n) :=
  if h : b.length = n then some ⟨b, h⟩ else none

/-- `n` copies of one byte. -/
def replicate (n : Nat) (x : UInt8) : FixedBytes n := ⟨List.replicate n x, by simp⟩

instance (n : Nat) : Inhabited (FixedBytes n) := ⟨replicate n 0⟩

@[ext] theorem ext {n : Nat} {a b : FixedBytes n} (h : a.toList = b.toList) : a = b := by
  cases a; cases b; simp_all

@[simp] theorem ofBytes?_toList {n : Nat} (a : FixedBytes n) : ofBytes? n a.toList = some a := by
  simp [ofBytes?, a.length_eq]

end FixedBytes

end MemoryHard
