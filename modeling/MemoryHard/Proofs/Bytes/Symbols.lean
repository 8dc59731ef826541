import MemoryHard.Bytes.Base64

/-!
# MemoryHard.Proofs.Bytes.Symbols — bytes come back from their symbols

Hexadecimal digits and base64 symbols are ASCII characters, so the text of some bytes has one byte
for each symbol, and each symbol stands for the number it was written for.

* `Hex.decode_encode`, `Hex.length_encode` — hexadecimal digits;
* `Base64.decode_encode` — base64 in the standard form, whatever the length of the last group.
-/

namespace MemoryHard.Bytes

theorem utf8_cons {c : Char} (h : c.toNat < 128) (s : List Char) :
    utf8 (c :: s) = UInt8.ofNat c.toNat :: utf8 s := by
  have hsize : c.utf8Size = 1 :=
    Char.utf8Size_eq_one_iff.2 (UInt32.le_iff_toNat_le.2 (Nat.le_of_lt_succ h))
  rw [utf8, List.flatMap_cons, String.utf8EncodeChar_eq_singleton hsize]
  rfl

/-! ## Hexadecimal digits -/

namespace Hex

theorem digit_lt : ∀ n < 16, (digit n).toNat < 128 := by decide

theorem value?_digit : ∀ n < 16, value? (UInt8.ofNat (digit n).toNat) = some n := by decide

theorem utf8_encode_cons (x : UInt8) (b : Bytes) : utf8 (encode (x :: b)) =
    UInt8.ofNat (digit (x.toNat / 16)).toNat :: UInt8.ofNat (digit (x.toNat % 16)).toNat ::
      utf8 (encode b) := by
  have hx : x.toNat < 256 := x.toNat_lt
  have hhigh := digit_lt (x.toNat / 16) (by omega)
  have hlow := digit_lt (x.toNat % 16) (Nat.mod_lt _ (by decide))
  rw [encode, List.flatMap_cons, encodeByte, List.cons_append, List.cons_append, List.nil_append,
    utf8_cons hhigh, utf8_cons hlow]
  rfl

@[simp] theorem length_encode (b : Bytes) : (utf8 (encode b)).length = 2 * b.length := by
  induction b with
  | nil => rfl
  | cons x b ih =>
    rw [utf8_encode_cons, List.length_cons, List.length_cons, ih, List.length_cons]
    omega

theorem decodePairs_encode (offset : Nat) (b : Bytes) :
    decodePairs offset (utf8 (encode b)) = .ok b := by
  induction b generalizing offset with
  | nil => rfl
  | cons x b ih =>
    have hx : x.toNat < 256 := x.toNat_lt
    have hhigh := value?_digit (x.toNat / 16) (by omega)
    have hlow := value?_digit (x.toNat % 16) (Nat.mod_lt _ (by decide))
    have hback : UInt8.ofNat (16 * (x.toNat / 16) + x.toNat % 16) = x := by
      rw [Nat.div_add_mod, UInt8.ofNat_toNat]
    rw [utf8_encode_cons, decodePairs, hhigh, hlow]
    dsimp only
    rw [ih, Except.map, hback]

/-- The digits of some bytes read as these bytes. -/
theorem decode_encode (b : Bytes) : decode (encode b) = .ok b := by
  have heven : (utf8 (encode b)).length % 2 = 0 := by
    rw [length_encode, Nat.mul_mod_right]
  rw [decode, heven]
  exact decodePairs_encode 0 b

end Hex

/-! ## Base64 -/

namespace Base64

/-- The byte of a symbol. -/
def symbolByte (n : Nat) : UInt8 := UInt8.ofNat (symbol standard n).toNat

/-- The bytes of the text of some bytes. -/
def encoded (b : Bytes) : Bytes := utf8 (encode standard b)

theorem symbol_lt : ∀ n < 64, (symbol standard n).toNat < 128 := by decide

theorem value?_symbolByte : ∀ n < 64, value? (symbolByte n) = some n := by decide

theorem symbolByte_ne_padding : ∀ n < 64, symbolByte n ≠ padding := by decide

theorem utf8_symbol_cons {n : Nat} (h : n < 64) (s : List Char) :
    utf8 (symbol standard n :: s) = symbolByte n :: utf8 s := utf8_cons (symbol_lt n h) s

theorem encoded_one (x : UInt8) : encoded [x] =
    [symbolByte (x.toNat / 4), symbolByte (x.toNat % 4 * 16), padding, padding] := by
  have hx : x.toNat < 256 := x.toNat_lt
  rw [encoded, encode, List.cons_append, List.cons_append, utf8_symbol_cons (by omega),
    utf8_symbol_cons (by omega)]
  rfl

theorem encoded_two (x y : UInt8) : encoded [x, y] =
    [symbolByte (x.toNat / 4), symbolByte (x.toNat % 4 * 16 + y.toNat / 16),
      symbolByte (y.toNat % 16 * 4), padding] := by
  have hx : x.toNat < 256 := x.toNat_lt
  have hy : y.toNat < 256 := y.toNat_lt
  rw [encoded, encode, List.cons_append, List.cons_append, List.cons_append,
    utf8_symbol_cons (by omega), utf8_symbol_cons (by omega), utf8_symbol_cons (by omega)]
  rfl

theorem encoded_three (x y z : UInt8) (b : Bytes) : encoded (x :: y :: z :: b) =
    symbolByte (x.toNat / 4) :: symbolByte (x.toNat % 4 * 16 + y.toNat / 16) ::
      symbolByte (y.toNat % 16 * 4 + z.toNat / 64) :: symbolByte (z.toNat % 64) :: encoded b := by
  have hx : x.toNat < 256 := x.toNat_lt
  have hy : y.toNat < 256 := y.toNat_lt
  have hz : z.toNat < 256 := z.toNat_lt
  rw [encoded, encode, utf8_symbol_cons (by omega), utf8_symbol_cons (by omega),
    utf8_symbol_cons (by omega), utf8_symbol_cons (by omega), encoded]

theorem length_encoded (b : Bytes) : (encoded b).length % 4 = 0 := by
  fun_induction encode standard b with
  | case1 => rfl
  | case2 x =>
    rw [encoded_one]
    simp
  | case3 x y =>
    rw [encoded_two]
    simp
  | case4 x y z b ih =>
    rw [encoded_three]
    simp only [List.length_cons]
    omega

theorem exists_encoded_cons {b : Bytes} (h : b ≠ []) : ∃ x rest, encoded b = x :: rest := by
  fun_cases encode standard b with
  | case1 => exact absurd rfl h
  | case2 x => exact ⟨_, _, encoded_one x⟩
  | case3 x y => exact ⟨_, _, encoded_two x y⟩
  | case4 x y z b => exact ⟨_, _, encoded_three x y z b⟩

/-! ### A last group -/

theorem valueAt_symbolByte {n : Nat} (h : n < 64) (offset : Nat) :
    valueAt offset (symbolByte n) = .ok n := by
  rw [valueAt, value?_symbolByte n h]

/-- The symbols of a last group are found in front of its filling. -/
theorem lastSymbols_map {numbers : List Nat} (hn : ∀ n ∈ numbers, n < 64) (start index : Nat)
    {filling : Bytes} (hf : lastSymbols start (index + numbers.length) none filling = .ok []) :
    lastSymbols start index none (numbers.map symbolByte ++ filling) =
      .ok (numbers.map fun n => (symbolByte n, n)) := by
  induction numbers generalizing index with
  | nil => exact hf
  | cons n numbers ih =>
    have hlt := hn n List.mem_cons_self
    rw [List.length_cons, ← Nat.add_assoc, Nat.add_right_comm] at hf
    rw [List.map_cons, List.cons_append, lastSymbols, if_neg (symbolByte_ne_padding n hlt),
      valueAt_symbolByte hlt, ih (fun m hm => hn m (List.mem_cons_of_mem _ hm)) (index + 1) hf]
    rfl

variable {a b c d : Nat}

theorem decodeLast_two (ha : a < 64) (hb : b < 64) (hspare : b % 16 = 0) (start : Nat) :
    decodeLast start [symbolByte a, symbolByte b, padding, padding] =
      .ok [UInt8.ofNat (a * 4 + b / 16)] := by
  have hsymbols : lastSymbols start 0 none [symbolByte a, symbolByte b, padding, padding] =
      .ok [(symbolByte a, a), (symbolByte b, b)] :=
    @lastSymbols_map [a, b] (by simp [ha, hb]) start 0 [padding, padding] rfl
  rw [decodeLast, hsymbols]
  exact if_neg (not_not_intro hspare)

theorem decodeLast_three (ha : a < 64) (hb : b < 64) (hc : c < 64) (hspare : c % 4 = 0)
    (start : Nat) : decodeLast start [symbolByte a, symbolByte b, symbolByte c, padding] =
      .ok [UInt8.ofNat (a * 4 + b / 16), UInt8.ofNat (b % 16 * 16 + c / 4)] := by
  have hsymbols : lastSymbols start 0 none [symbolByte a, symbolByte b, symbolByte c, padding] =
      .ok [(symbolByte a, a), (symbolByte b, b), (symbolByte c, c)] :=
    @lastSymbols_map [a, b, c] (by simp [ha, hb, hc]) start 0 [padding] rfl
  rw [decodeLast, hsymbols]
  exact if_neg (not_not_intro hspare)

theorem decodeLast_four (ha : a < 64) (hb : b < 64) (hc : c < 64) (hd : d < 64) (start : Nat) :
    decodeLast start [symbolByte a, symbolByte b, symbolByte c, symbolByte d] =
      .ok [UInt8.ofNat (a * 4 + b / 16), UInt8.ofNat (b % 16 * 16 + c / 4),
        UInt8.ofNat (c % 4 * 64 + d)] := by
  have hsymbols : lastSymbols start 0 none
      [symbolByte a, symbolByte b, symbolByte c, symbolByte d] =
      .ok [(symbolByte a, a), (symbolByte b, b), (symbolByte c, c), (symbolByte d, d)] :=
    @lastSymbols_map [a, b, c, d] (by simp [ha, hb, hc, hd]) start 0 [] rfl
  rw [decodeLast, hsymbols]
  rfl

/-! ### All groups -/

/-- A group that something follows is a whole one. -/
theorem decodeGroups_four (ha : a < 64) (hb : b < 64) (hc : c < 64) (hd : d < 64) {start : Nat}
    {next : UInt8} {rest bytes : Bytes}
    (hrest : decodeGroups (start + 4) (next :: rest) = .ok bytes) :
    decodeGroups start
      (symbolByte a :: symbolByte b :: symbolByte c :: symbolByte d :: next :: rest) =
      .ok (UInt8.ofNat (a * 4 + b / 16) :: UInt8.ofNat (b % 16 * 16 + c / 4) ::
        UInt8.ofNat (c % 4 * 64 + d) :: bytes) := by
  rw [decodeGroups, valueAt_symbolByte ha, valueAt_symbolByte hb, valueAt_symbolByte hc,
    valueAt_symbolByte hd, hrest]
  rfl

theorem ofNat_eq {n : Nat} {x : UInt8} (h : n = x.toNat) : UInt8.ofNat n = x := by
  rw [h, UInt8.ofNat_toNat]

theorem decodeGroups_encoded (start : Nat) (bytes : Bytes) :
    decodeGroups start (encoded bytes) = .ok bytes := by
  fun_induction encode standard bytes generalizing start with
  | case1 => rfl
  | case2 x =>
    have hx : x.toNat < 256 := x.toNat_lt
    have hx' : x.toNat / 4 * 4 + x.toNat % 4 * 16 / 16 = x.toNat := by omega
    rw [encoded_one]
    refine (decodeLast_two (by omega) (by omega) (by omega) start).trans ?_
    rw [ofNat_eq hx']
  | case3 x y =>
    have hx : x.toNat < 256 := x.toNat_lt
    have hy : y.toNat < 256 := y.toNat_lt
    have hx' : x.toNat / 4 * 4 + (x.toNat % 4 * 16 + y.toNat / 16) / 16 = x.toNat := by omega
    have hy' : (x.toNat % 4 * 16 + y.toNat / 16) % 16 * 16 + y.toNat % 16 * 4 / 4 = y.toNat := by
      omega
    rw [encoded_two]
    refine (decodeLast_three (by omega) (by omega) (by omega) (by omega) start).trans ?_
    rw [ofNat_eq hx', ofNat_eq hy']
  | case4 x y z rest ih =>
    have hx : x.toNat < 256 := x.toNat_lt
    have hy : y.toNat < 256 := y.toNat_lt
    have hz : z.toNat < 256 := z.toNat_lt
    have hx' : x.toNat / 4 * 4 + (x.toNat % 4 * 16 + y.toNat / 16) / 16 = x.toNat := by omega
    have hy' : (x.toNat % 4 * 16 + y.toNat / 16) % 16 * 16 +
        (y.toNat % 16 * 4 + z.toNat / 64) / 4 = y.toNat := by omega
    have hz' : (y.toNat % 16 * 4 + z.toNat / 64) % 4 * 64 + z.toNat % 64 = z.toNat := by omega
    by_cases hnil : rest = []
    · -- nothing follows, so this group is the last one although it is whole
      subst hnil
      rw [encoded_three]
      refine (decodeLast_four (by omega) (by omega) (by omega) (by omega) start).trans ?_
      rw [ofNat_eq hx', ofNat_eq hy', ofNat_eq hz']
    · obtain ⟨next, tail, hnext⟩ := exists_encoded_cons hnil
      have hrest := ih (start + 4)
      rw [hnext] at hrest
      rw [encoded_three, hnext,
        decodeGroups_four (by omega) (by omega) (by omega) (by omega) hrest, ofNat_eq hx',
        ofNat_eq hy', ofNat_eq hz']

/-- The symbols of some bytes read as these bytes. -/
theorem decode_encode (bytes : Bytes) : decode (encode standard bytes) = .ok bytes := by
  have hlone : checkLone (encoded bytes) = .ok () := by
    unfold checkLone
    split
    · rw [if_neg (by rw [length_encoded]; simp)]
    · rfl
  show (checkLone (encoded bytes)).bind _ = _
  rw [hlone]
  exact decodeGroups_encoded 0 bytes

end Base64

end MemoryHard.Bytes
