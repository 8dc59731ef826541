import Mathlib.Tactic.SplitIfs
import MemoryHard.Json
import MemoryHard.Json.Number

/-!
# MemoryHard.Proofs.Json.Token — strings and numbers come back from their text

What is written for a string or for a number is read as this string or this number, whatever
follows it, as long as a number is not followed by more of a number.

* `skipBlank_append`, `skipBlank_cons` — blanks are read over, and nothing else is;
* `readString_flatMap_escape` — strings, with whatever characters;
* `IsEnd` — a text with which the one before it has come to its end;
* `readNumber_toDigits` — numbers of 64 bits.
-/

namespace MemoryHard.Json

/-! ## Blanks -/

/-- A text of blanks. -/
def IsBlankText (s : Text) : Prop := ∀ c ∈ s, isBlank c = true

theorem isBlankText_nil : IsBlankText [] := fun _ h => nomatch h

theorem skipBlank_append {s : Text} (h : IsBlankText s) (t : Text) :
    skipBlank (s ++ t) = skipBlank t := List.dropWhile_append_of_pos h

theorem skipBlank_cons {c : Char} (h : isBlank c = false) (t : Text) :
    skipBlank (c :: t) = c :: t := List.dropWhile_cons_of_neg (by simp [h])

theorem skipBlank_append_cons {s : Text} (hs : IsBlankText s) {c : Char} (hc : isBlank c = false)
    (t : Text) : skipBlank (s ++ c :: t) = c :: t := by
  rw [skipBlank_append hs, skipBlank_cons hc]

/-- A text with which the one before it has come to its end: there is nothing in it, or it begins
with a blank or with a mark that ends an item. -/
def IsEnd : Text → Prop
  | [] => True
  | c :: _ => isBlank c = true ∨ c = ',' ∨ c = ']' ∨ c = '\x7d'

theorem isEnd_cons {c : Char} (h : c = ',' ∨ c = ']' ∨ c = '\x7d') (t : Text) : IsEnd (c :: t) :=
  .inr h

theorem isEnd_append {s t : Text} (hs : IsBlankText s) (ht : IsEnd t) : IsEnd (s ++ t) := by
  cases s with
  | nil => exact ht
  | cons c s => exact .inl (hs c List.mem_cons_self)

/-! ## Strings -/

theorem hexDigit?_digitChar : ∀ n < 16, hexDigit? (Nat.digitChar n) = some n := by decide

theorem codeUnit?_digitChar {n : Nat} (h : n < 0x20) :
    codeUnit? '0' '0' (Nat.digitChar (n / 16)) (Nat.digitChar (n % 16)) = some n := by
  have hhigh := hexDigit?_digitChar (n / 16) (by omega)
  have hlow := hexDigit?_digitChar (n % 16) (Nat.mod_lt _ (by decide))
  have hzero : hexDigit? '0' = some 0 := by decide
  unfold codeUnit?
  rw [hhigh, hlow, hzero]
  show some (0 * 4096 + 0 * 256 + n / 16 * 16 + n % 16) = some n
  congr 1
  omega

theorem readString_unicode {c : Char} (h : c.toNat < 0x20) (rest : Text) :
    readString ('\\' :: 'u' :: '0' :: '0' :: Nat.digitChar (c.toNat / 16) ::
      Nat.digitChar (c.toNat % 16) :: rest) = consResult c (readString rest) := by
  have hfirst : isFirstHalf c.toNat = false := by
    simp [isFirstHalf]
    omega
  have hsecond : isSecondHalf c.toNat = false := by
    simp [isSecondHalf]
    omega
  rw [readString, codeUnit?_digitChar h]
  dsimp only
  rw [hsecond, hfirst, if_neg Bool.false_ne_true, if_neg Bool.false_ne_true, Char.ofNat_toNat]

theorem readString_plain {c : Char} (hquote : c ≠ '"') (hslash : c ≠ '\\') (h : ¬c.toNat < 0x20)
    (rest : Text) : readString (c :: rest) = consResult c (readString rest) := by
  rw [readString]
  · exact if_neg h
  · exact hquote
  · exact fun h => absurd h hslash
  · exact fun _ h => absurd h hslash
  · exact fun _ _ h => absurd h hslash

theorem readString_escape (c : Char) (rest : Text) :
    readString (escape c ++ rest) = consResult c (readString rest) := by
  unfold escape
  split_ifs with hquote hslash hb hf hn hr ht hcontrol
  · subst hquote; rfl
  · subst hslash; rfl
  · subst hb; rfl
  · subst hf; rfl
  · subst hn; rfl
  · subst hr; rfl
  · subst ht; rfl
  · exact readString_unicode hcontrol rest
  · exact readString_plain hquote hslash hcontrol rest

/-- What is written for a string reads as this string, once the quote in front has been read. -/
theorem readString_flatMap_escape (s : List Char) (rest : Text) :
    readString (s.flatMap escape ++ '"' :: rest) = .ok (s, rest) := by
  induction s with
  | nil => rfl
  | cons c s ih =>
    rw [List.flatMap_cons, List.append_assoc, readString_escape, ih]
    rfl

/-! ## Numbers -/

/-- A text in which a number does not go on. -/
def EndsNumber (t : Text) : Prop :=
  ∀ c, t.head? = some c → c.isDigit = false ∧ c ≠ '.' ∧ c ≠ 'e' ∧ c ≠ 'E'

theorem IsEnd.endsNumber {t : Text} (h : IsEnd t) : EndsNumber t := by
  cases t with
  | nil => exact fun c hc => nomatch hc
  | cons c t =>
    rintro _ ⟨⟩
    unfold IsEnd isBlank at h
    simp only [Bool.or_eq_true, decide_eq_true_eq] at h
    rcases h with (((h | h) | h) | h) | h | h | h <;> subst h <;> decide

/-- The first digit of a number is zero just if the number is. -/
theorem toDigits_eq_cons (n : Nat) :
    ∃ c rest, Nat.toDigits 10 n = c :: rest ∧ c.isDigit = true ∧ (c = '0' → rest = []) := by
  induction n using Nat.strongRecOn with
  | _ n ih =>
    have hdigit : ∀ m < 10, (Nat.digitChar m).isDigit = true := by decide
    rw [Nat.toDigits_eq_if (by decide)]
    split_ifs with hlt
    · exact ⟨_, [], rfl, hdigit n hlt, fun _ => rfl⟩
    · obtain ⟨c, rest, hn, hc, hzero⟩ := ih (n / 10) (by omega)
      refine ⟨c, rest ++ [Nat.digitChar (n % 10)], by rw [hn]; rfl, hc, ?_⟩
      -- a zero in front would be all of `n / 10`, which is not zero
      rintro rfl
      have hvalue := @Nat.ofDigitChars_ten_toDigits (n / 10)
      rw [hn, hzero rfl] at hvalue
      have : n / 10 = 0 := hvalue.symm
      omega

theorem leadingDigits_append {s t : Text} (hs : ∀ c ∈ s, c.isDigit = true) (ht : EndsNumber t) :
    leadingDigits (s ++ t) = s ∧ afterDigits (s ++ t) = t := by
  unfold leadingDigits afterDigits
  rw [List.takeWhile_append_of_pos hs, List.dropWhile_append_of_pos hs]
  cases t with
  | nil => simp
  | cons c t =>
    obtain ⟨hc, -⟩ := ht c rfl
    simp [hc]

theorem le_ofDigitChars (n : Nat) (digits : List Char) : n ≤ Nat.ofDigitChars 10 digits n := by
  induction digits generalizing n with
  | nil => exact Nat.le_of_eq Nat.ofDigitChars_nil.symm
  | cons c digits ih =>
    rw [Nat.ofDigitChars_cons]
    refine Nat.le_trans ?_ (ih _)
    omega

/-- As long as the number stays within the limit, all digits are taken. -/
theorem appendDigits_eq {limit n : Nat} {digits : List Char}
    (h : Nat.ofDigitChars 10 digits n ≤ limit) :
    appendDigits limit n digits = (Nat.ofDigitChars 10 digits n, digits.length) := by
  induction digits generalizing n with
  | nil => rw [appendDigits, Nat.ofDigitChars_nil]; rfl
  | cons c digits ih =>
    rw [Nat.ofDigitChars_cons] at h ⊢
    have hnext : 10 * n + (c.toNat - 48) ≤ limit := Nat.le_trans (le_ofDigitChars _ digits) h
    have hrest : appendDigits limit (10 * n + (c.toNat - 48)) digits = _ := ih h
    rw [appendDigits, if_neg (Nat.not_lt.2 hnext), hrest]
    rfl

theorem wholePart_toDigits (n : Nat) {rest : Text} (h : EndsNumber rest) :
    wholePart (Nat.toDigits 10 n ++ rest) = (Nat.toDigits 10 n, rest) := by
  have hdigits : ∀ c ∈ Nat.toDigits 10 n, c.isDigit = true :=
    fun c hc => Nat.isDigit_of_mem_toDigits (by decide) (by decide) hc
  obtain ⟨hleading, hafter⟩ := leadingDigits_append hdigits h
  obtain ⟨c, digits, hn, -, hzero⟩ := toDigits_eq_cons n
  rw [hn] at hleading hafter ⊢
  by_cases hc : c = '0'
  · rw [hzero hc, hc]
    rfl
  · rw [List.cons_append, wholePart]
    · exact Prod.ext hleading hafter
    · rintro rest ⟨rfl, -⟩
      exact hc rfl

theorem EndsNumber.startsWithDigit {t : Text} (h : EndsNumber t) : startsWithDigit t = false := by
  cases t with
  | nil => rfl
  | cons c t => exact (h c rfl).1

theorem EndsNumber.head?_ne {t : Text} (h : EndsNumber t) :
    t.head? ≠ some '.' ∧ t.head? ≠ some 'e' ∧ t.head? ≠ some 'E' :=
  ⟨fun hc => (h _ hc).2.1 rfl, fun hc => (h _ hc).2.2.1 rfl, fun hc => (h _ hc).2.2.2 rfl⟩

/-- What is written for a number reads as this number. -/
theorem readNumber_toDigits {n : Nat} (hn : n ≤ maxWord) {rest : Text} (h : EndsNumber rest) :
    readNumber true (Nat.toDigits 10 n ++ rest) = .ok (.natural n, rest) := by
  have hwhole := wholePart_toDigits n h
  have hvalue := @Nat.ofDigitChars_ten_toDigits n
  have hall : appendDigits maxWord 0 (Nat.toDigits 10 n) = (n, (Nat.toDigits 10 n).length) := by
    rw [appendDigits_eq (by rw [hvalue]; exact hn), hvalue]
  obtain ⟨hdot, he⟩ := h.head?_ne
  obtain ⟨c, digits, hcons, hc, -⟩ := toDigits_eq_cons n
  rw [hcons] at hwhole hall ⊢
  rw [List.cons_append] at hwhole ⊢
  rw [readNumber, hc]
  simp only [Bool.not_true, Bool.false_eq_true, if_false]
  rw [hwhole]
  dsimp only
  rw [h.startsWithDigit, Bool.and_false, if_neg Bool.false_ne_true, hall]
  split
  · exact absurd rfl hdot
  · rw [if_pos ⟨Nat.sub_self _, he⟩]
    rfl

end MemoryHard.Json
