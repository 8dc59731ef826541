import MemoryHard.Block

/-!
# MemoryHard.Proofs.Block.Encoding — blocks and their bytes

Words are written and read in the same order, so a block and its 1024 bytes determine each other.

* `Bytes.words64_append`, `Bytes.flatMap_words64` — the same for lists of words;
* `Block.ofBytes_toBytes`, `Block.toBytes_ofBytes` — both ways round;
* `Block.ofBytes?_eq_some_iff`, `Block.isSome_ofBytes?` — what the checked reading accepts.
-/

namespace MemoryHard

namespace Bytes

theorem leNat_le64 (x : UInt64) : leNat (le64 x) = x.toNat := by
  rw [le64_eq_leBytes, leNat_leBytes]
  exact Nat.mod_eq_of_lt x.toNat_lt

theorem word64_append (x : UInt64) (b : Bytes) : word64 (le64 x ++ b) = x := by
  apply UInt64.toNat_inj.1
  rw [word64, toNat_wordOf (Nat.le_refl 8), List.take_left' (length_le64 x), leNat_le64]

theorem le64_word64 {b : Bytes} (h : 8 ≤ b.length) : le64 (word64 b) = b.take 8 := by
  have hlen : (b.take 8).length = 8 := List.length_take_of_le h
  have hback := leBytes_leNat (b.take 8)
  rw [hlen] at hback
  rw [le64_eq_leBytes, word64, toNat_wordOf (Nat.le_refl 8), hback]

theorem words64_append (xs : List UInt64) (b : Bytes) :
    words64 xs.length (xs.flatMap le64 ++ b) = xs := by
  induction xs with
  | nil => rfl
  | cons x xs ih =>
    rw [List.length_cons, List.flatMap_cons, List.append_assoc, words64, word64_append,
      List.drop_left' (length_le64 x), ih]

theorem flatMap_words64 {count : Nat} {b : Bytes} (h : b.length = 8 * count) :
    (words64 count b).flatMap le64 = b := by
  induction count generalizing b with
  | zero =>
    have hnil : b = [] := List.eq_nil_of_length_eq_zero h
    rw [hnil]
    rfl
  | succ count ih =>
    have hdrop : (b.drop 8).length = 8 * count := by
      rw [List.length_drop]
      omega
    rw [words64, List.flatMap_cons, le64_word64 (by omega), ih hdrop, List.take_append_drop]

end Bytes

namespace Block

open MemoryHard.Bytes

variable {a b : Block} {bytes : Bytes}

theorem toList_words_ofBytes (bytes : Bytes) :
    (ofBytes bytes).words.toList = words64 128 bytes := rfl

theorem ofBytes_toBytes (b : Block) : ofBytes b.toBytes = b := by
  have hwords := words64_append b.words.toList []
  rw [List.append_nil, ← toBytes_eq_flatMap, Vector.length_toList] at hwords
  have htoList : (ofBytes b.toBytes).words.toList = b.words.toList := hwords
  exact congrArg Block.mk (Vector.toList_inj.1 htoList)

theorem toBytes_ofBytes (h : bytes.length = byteLength) : (ofBytes bytes).toBytes = bytes := by
  rw [toBytes_eq_flatMap, toList_words_ofBytes]
  exact flatMap_words64 h

theorem toBytes_injective (h : a.toBytes = b.toBytes) : a = b := by
  rw [← ofBytes_toBytes a, h, ofBytes_toBytes]

theorem ofBytes?_toBytes (b : Block) : ofBytes? b.toBytes = some b := by
  rw [ofBytes?, if_pos (length_toBytes b), ofBytes_toBytes]

/-- Bytes are read as a block only if they are the bytes of that block. -/
theorem ofBytes?_eq_some_iff : ofBytes? bytes = some b ↔ bytes = b.toBytes := by
  constructor
  · intro h
    unfold ofBytes? at h
    split at h
    · next hlen =>
      rw [← Option.some.inj h, toBytes_ofBytes hlen]
    · cases h
  · rintro rfl
    exact ofBytes?_toBytes b

theorem toBytes_ofBytes_eq_iff :
    (ofBytes bytes).toBytes = bytes ↔ bytes.length = byteLength := by
  constructor
  · intro h
    rw [← h, length_toBytes]
  · exact toBytes_ofBytes

theorem isSome_ofBytes? : (ofBytes? bytes).isSome ↔ bytes.length = byteLength := by
  rw [Option.isSome_iff_exists, ← toBytes_ofBytes_eq_iff]
  constructor
  · rintro ⟨b, hb⟩
    rw [ofBytes?_eq_some_iff.1 hb, ofBytes_toBytes]
  · intro h
    exact ⟨ofBytes bytes, ofBytes?_eq_some_iff.2 h.symm⟩

end Block

end MemoryHard
