import MemoryHard.Json.Reader
import MemoryHard.Proofs.Bytes.Symbols
import MemoryHard.Proofs.Json.Token

/-!
# MemoryHard.Proofs.Json.Reader — values come back from their text

A reader reads a value if it gives it back from every text of the value: in any layout of blanks,
at any depth, after any blanks, and in front of anything with which the value is at its end.  A
reader that is put together from others reads what they read.

* `Layout.IsBlank` — a layout that consists of blanks;
* `Reader.Reads` — what it is to read a value;
* `reads_readWord32`, `reads_readBase64With`, `reads_readHex`, `Reads.option`, `Reads.list` — the
  values without names;
* `Record.Collects`, `Record.Collects.reads` — objects, field by field;
* `Reader.Reads.decode` — whole texts.
-/

namespace MemoryHard.Json

open MemoryHard.Bytes

/-! ## Layouts -/

/-- Nothing but blanks stands between the parts of a text. -/
structure Layout.IsBlank (l : Layout) : Prop where
  lineBreak : ∀ depth, IsBlankText (l.lineBreak depth)
  afterColon : IsBlankText l.afterColon

theorem isBlank_dense : dense.IsBlank := ⟨fun _ => isBlankText_nil, isBlankText_nil⟩

theorem isBlank_spread : spread.IsBlank := by
  constructor
  · intro depth c hc
    rcases List.mem_cons.1 hc with rfl | hc
    · rfl
    · rw [(List.mem_replicate.1 hc).2]
      rfl
  · intro c hc
    rw [List.mem_singleton.1 hc]
    rfl

/-- How the text of a value begins: with a digit, a quote or a bracket. -/
theorem render_eq_cons (l : Layout) (depth : Nat) (v : Json) :
    ∃ c rest, render l depth v = c :: rest ∧ isBlank c = false ∧ c ≠ 'n' ∧ c ≠ ']' := by
  cases v with
  | number n =>
    obtain ⟨c, rest, hn, hc, -⟩ := toDigits_eq_cons n
    refine ⟨c, rest, by rw [render, hn], ?_, ?_, ?_⟩
    · refine Bool.eq_false_iff.2 fun hblank => ?_
      unfold isBlank at hblank
      simp only [Bool.or_eq_true, decide_eq_true_eq] at hblank
      rcases hblank with ((rfl | rfl) | rfl) | rfl <;> cases hc
    · rintro rfl
      cases hc
    · rintro rfl
      cases hc
  | string s => exact ⟨'"', _, by rw [render, quote, List.cons_append], rfl, by decide, by decide⟩
  | list items =>
    cases items with
    | nil => exact ⟨'[', _, by rw [render], rfl, by decide, by decide⟩
    | cons => exact ⟨'[', _, by rw [render]; rfl, rfl, by decide, by decide⟩
  | object fields =>
    cases fields with
    | nil => exact ⟨'\x7b', _, by rw [render], rfl, by decide, by decide⟩
    | cons => exact ⟨'\x7b', _, by rw [render]; rfl, rfl, by decide, by decide⟩

/-! ## Values without names -/

/-- A reader gives a value back from each of its texts. -/
def Reader.Reads {α : Type} (reader : Reader α) (v : Json) (a : α) : Prop :=
  ∀ (l : Layout) (depth : Nat) (blanks rest : Text), l.IsBlank → IsBlankText blanks →
    IsEnd rest → reader (blanks ++ (render l depth v ++ rest)) = .ok (a, rest)

variable {α β : Type} {reader : Reader α} {v : Json} {a : α}

theorem skipBlank_render {blanks : Text} (h : IsBlankText blanks) (l : Layout) (depth : Nat)
    (v : Json) (rest : Text) :
    skipBlank (blanks ++ (render l depth v ++ rest)) = render l depth v ++ rest := by
  obtain ⟨c, text, htext, hc, -⟩ := render_eq_cons l depth v
  rw [htext]
  exact skipBlank_append_cons h hc _

theorem Reader.Reads.map (h : reader.Reads v a) (f : α → β) :
    Reader.Reads (fun t => mapResult f (reader t)) v (f a) := by
  intro l depth blanks rest hl hb hr
  show mapResult f _ = _
  rw [h l depth blanks rest hl hb hr, mapResult]

theorem reads_readNat {limit n : Nat} (hlimit : limit ≤ maxWord) (hn : n ≤ limit) (name : String) :
    (readNat limit name).Reads (.number n) n := by
  intro l depth blanks rest hl hb hr
  have hnumber := readNumber_toDigits (Nat.le_trans hn hlimit) hr.endsNumber
  have hblank := skipBlank_render hb l depth (.number n) rest
  obtain ⟨c, digits, hcons, hc, -⟩ := toDigits_eq_cons n
  rw [render, hcons, List.cons_append] at hblank
  rw [hcons, List.cons_append] at hnumber
  rw [render, hcons, List.cons_append, readNat, hblank]
  split
  · next h => cases h
  · next h => cases h; cases hc
  · next h =>
    cases h
    rw [hc, if_pos rfl, hnumber]
    exact if_pos hn

theorem reads_readWord32 (x : UInt32) : readWord32.Reads (.number x.toNat) x := by
  have h := (reads_readNat (by decide) (Nat.le_pred_of_lt x.toNat_lt) "u32").map UInt32.ofNat
  rwa [UInt32.ofNat_toNat] at h

theorem reads_readWord64 (x : UInt64) : readWord64.Reads (.number x.toNat) x := by
  have h := (reads_readNat (by decide) (Nat.le_pred_of_lt x.toNat_lt) "usize").map UInt64.ofNat
  rwa [UInt64.ofNat_toNat] at h

theorem reads_readText (s : List Char) (name : String) : (readText name).Reads (.string s) s := by
  intro l depth blanks rest hl hb hr
  rw [readText, skipBlank_render hb, render, quote, List.cons_append, List.cons_append,
    List.append_assoc]
  exact readString_flatMap_escape s rest

theorem reads_readBase64With {b : Bytes} {convert : Bytes → Option α} (h : convert b = some a) :
    (readBase64With convert).Reads (.string (Base64.encode Base64.standard b)) a := by
  intro l depth blanks rest hl hb hr
  rw [readBase64With, reads_readText _ _ l depth blanks rest hl hb hr]
  dsimp only
  rw [Base64.decode_encode]
  dsimp only
  rw [h]
  rfl

theorem reads_readHex {n : Nat} (b : FixedBytes n) :
    (readHex n).Reads (.string (Hex.encode b.toList)) b := by
  intro l depth blanks rest hl hb hr
  rw [readHex, reads_readText _ _ l depth blanks rest hl hb hr]
  dsimp only
  rw [Hex.decode_encode]
  dsimp only
  rw [FixedBytes.ofBytes?_toList]

/-- A value that is there is read as well where it might be missing. -/
theorem Reader.Reads.option (h : reader.Reads v a) : (readOption reader).Reads v (some a) := by
  intro l depth blanks rest hl hb hr
  have hread := h l depth [] rest hl isBlankText_nil hr
  obtain ⟨c, text, htext, -, hn, -⟩ := render_eq_cons l depth v
  rw [readOption, skipBlank_render hb, htext]
  rw [htext] at hread
  split
  · next h => cases h; exact absurd rfl hn
  · rw [List.nil_append] at hread
    rw [hread, mapResult]

/-! ## Lists -/

/-- What stands behind an item: the next one, or blanks and the end of the list. -/
theorem isEnd_renderItems (l : Layout) (depth : Nat) (items : List Json) {closing : Text}
    (hc : IsBlankText closing) (rest : Text) :
    IsEnd (renderItems l depth items ++ (closing ++ ']' :: rest)) := by
  cases items with
  | nil =>
    rw [renderItems, List.nil_append]
    exact isEnd_append hc (isEnd_cons (.inr (.inl rfl)) rest)
  | cons item items =>
    rw [renderItems]
    exact isEnd_cons (.inl rfl) _

/-- One item is read where the text goes on with it. -/
theorem readItems_cons (h : reader.Reads v a) {l : Layout} (hl : l.IsBlank) {depth : Nat}
    {first : Bool} {x : Char} {fuel t more : Text}
    (hitem : nextItem first t = .ok (true, render l depth v ++ more)) (hmore : IsEnd more) :
    readItems reader (x :: fuel) first t =
      mapResult (a :: ·) (readItems reader fuel false more) := by
  have hread := h l depth [] more hl isBlankText_nil hmore
  rw [List.nil_append] at hread
  rw [readItems, hitem]
  dsimp only
  rw [hread]

theorem nextItem_end (first : Bool) {closing : Text} (hc : IsBlankText closing) (rest : Text) :
    nextItem first (closing ++ ']' :: rest) = .ok (false, ']' :: rest) := by
  rw [nextItem, skipBlank_append_cons hc rfl]
  exact if_pos rfl

theorem nextItem_first {blanks : Text} (hb : IsBlankText blanks) (l : Layout) (depth : Nat)
    (v : Json) (rest : Text) : nextItem true (blanks ++ (render l depth v ++ rest)) =
      .ok (true, render l depth v ++ rest) := by
  obtain ⟨c, text, htext, hc, -, hend⟩ := render_eq_cons l depth v
  rw [nextItem, skipBlank_render hb, htext]
  exact (if_neg hend).trans (if_pos rfl)

theorem nextItem_next {blanks : Text} (hb : IsBlankText blanks) (l : Layout) (depth : Nat)
    (v : Json) (rest : Text) : nextItem false (',' :: (blanks ++ (render l depth v ++ rest))) =
      .ok (true, render l depth v ++ rest) := by
  obtain ⟨c, text, htext, hc, -, hend⟩ := render_eq_cons l depth v
  have hcomma : isBlank ',' = false := rfl
  rw [nextItem, skipBlank_cons hcomma]
  dsimp only
  rw [if_neg (by decide), if_neg Bool.false_ne_true, if_pos rfl, skipBlank_render hb, htext]
  exact if_neg hend

variable {f : α → Json}

/-- The items after the first, up to the end of the list. -/
theorem readItems_renderItems (h : ∀ a, reader.Reads (f a) a) {l : Layout} (hl : l.IsBlank)
    (depth : Nat) (items : List α) {fuel closing : Text} (hfuel : items.length < fuel.length)
    (hc : IsBlankText closing) (rest : Text) :
    readItems reader fuel false
      (renderItems l depth (items.map f) ++ (closing ++ ']' :: rest)) =
      .ok (items, ']' :: rest) := by
  induction items generalizing fuel with
  | nil =>
    cases fuel with
    | nil => cases hfuel
    | cons x fuel =>
      rw [List.map_nil, renderItems, List.nil_append, readItems, nextItem_end false hc]
  | cons a items ih =>
    cases fuel with
    | nil => cases hfuel
    | cons x fuel =>
      have hnext := nextItem_next (hl.lineBreak depth) l depth (f a)
        (renderItems l depth (items.map f) ++ (closing ++ ']' :: rest))
      rw [List.map_cons, renderItems, List.cons_append, List.cons_append, List.cons_append,
        List.append_assoc, List.append_assoc,
        readItems_cons (h a) hl hnext (isEnd_renderItems l depth _ hc rest),
        ih (Nat.lt_of_succ_lt_succ hfuel), mapResult]

theorem length_le_renderItems (l : Layout) (depth : Nat) (items : List Json) :
    items.length ≤ (renderItems l depth items).length := by
  induction items with
  | nil => exact Nat.zero_le _
  | cons item items ih =>
    rw [renderItems, List.cons_append, List.cons_append, List.length_cons, List.length_cons,
      List.length_append]
    omega

/-- A list of values is read where each of them is. -/
theorem Reader.Reads.list (h : ∀ a, reader.Reads (f a) a) (items : List α) :
    (readList reader).Reads (.list (items.map f)) items := by
  intro l depth blanks rest hl hb hr
  -- the reader of the items is given all of the text for its fuel
  have hread : ∀ body, readItems reader ('[' :: body) true body = .ok (items, ']' :: rest) →
      readList reader (blanks ++ '[' :: body) = .ok (items, rest) := by
    intro body hbody
    rw [readList, skipBlank_append_cons hb rfl]
    show closeList (readItems reader ('[' :: body) true body) = _
    rw [hbody]
    rfl
  cases items with
  | nil =>
    rw [List.map_nil, render, List.cons_append, List.cons_append, List.nil_append]
    refine hread _ ?_
    rw [readItems, ← List.nil_append (']' :: rest), nextItem_end true isBlankText_nil]
    rfl
  | cons a items =>
    rw [List.map_cons, render]
    simp only [List.cons_append, List.append_assoc, List.nil_append]
    refine hread _ ?_
    have hfirst := nextItem_first (hl.lineBreak (depth + 1)) l (depth + 1) (f a)
      (renderItems l (depth + 1) (items.map f) ++ (l.lineBreak depth ++ ']' :: rest))
    rw [readItems_cons (h a) hl hfirst (isEnd_renderItems l _ _ (hl.lineBreak depth) rest),
      readItems_renderItems h hl (depth + 1) items ?_ (hl.lineBreak depth) rest, mapResult]
    -- every item has a character of its own, so the fuel is enough
    have hlength := length_le_renderItems l (depth + 1) (items.map f)
    simp only [List.length_map, List.length_append, List.length_cons] at hlength ⊢
    omega

/-! ## Objects -/

/-- The fields of an object are those that a record asks for, each of them is read, and together
they lead from one state to another. -/
inductive Record.Collects {σ α : Type} (r : Record σ α) : σ → List (String × Json) → σ → Prop where
  | done (s : σ) : r.Collects s [] s
  | field {s s₁ s' : σ} {name : String} {v : Json} {reader : Reader σ}
      {fields : List (String × Json)} (meaning : r.meaning name s = .field reader)
      (reads : reader.Reads v s₁) (rest : r.Collects s₁ fields s') :
      r.Collects s ((name, v) :: fields) s'

namespace Record

variable {σ : Type} {r : Record σ α} {s s₁ s' : σ} {fields : List (String × Json)}

/-- What stands behind a field: the next one, or blanks and the end of the object. -/
theorem isEnd_renderFields (l : Layout) (depth : Nat) (fields : List (String × Json))
    {closing : Text} (hc : IsBlankText closing) (rest : Text) :
    IsEnd (renderFields l depth fields ++ (closing ++ '\x7d' :: rest)) := by
  cases fields with
  | nil =>
    rw [renderFields, List.nil_append]
    exact isEnd_append hc (isEnd_cons (.inr (.inr rfl)) rest)
  | cons field fields =>
    rw [renderFields]
    exact isEnd_cons (.inl rfl) _

/-- The text of a field after its first quote. -/
def fieldText (l : Layout) (depth : Nat) (name : String) (v : Json) (more : Text) : Text :=
  name.toList.flatMap escape ++ '"' :: ':' :: (l.afterColon ++ (render l depth v ++ more))

theorem renderField_append (l : Layout) (depth : Nat) (name : String) (v : Json) (more : Text) :
    renderField l depth (name, v) ++ more = '"' :: fieldText l depth name v more := by
  unfold fieldText
  rw [renderField, quote]
  simp only [List.cons_append, List.append_assoc, List.nil_append]

/-- One field is read where the text goes on with it. -/
theorem readFields_cons {reader : Reader σ} {name : String} (hm : r.meaning name s = .field reader)
    (h : reader.Reads v s₁) {l : Layout} (hl : l.IsBlank) {depth : Nat} {first : Bool} {x : Char}
    {fuel t more : Text} (hkey : nextKey first t = .ok (true, fieldText l depth name v more))
    (hmore : IsEnd more) :
    r.readFields (x :: fuel) first s t = r.readFields fuel false s₁ more := by
  rw [readFields, hkey]
  dsimp only
  rw [fieldText, readString_flatMap_escape]
  dsimp only
  have hcolon : expectColon (':' :: (l.afterColon ++ (render l depth v ++ more))) =
      .ok (l.afterColon ++ (render l depth v ++ more)) := by
    rw [expectColon, skipBlank_cons rfl]
    rfl
  rw [readField, String.ofList_toList, hm]
  dsimp only
  rw [hcolon]
  dsimp only
  rw [h l depth l.afterColon more hl hl.afterColon hmore]

theorem nextKey_end (first : Bool) {closing : Text} (hc : IsBlankText closing) (rest : Text) :
    nextKey first (closing ++ '\x7d' :: rest) = .ok (false, '\x7d' :: rest) := by
  rw [nextKey, skipBlank_append_cons hc rfl]
  exact if_pos rfl

theorem nextKey_first {blanks : Text} (hb : IsBlankText blanks) (rest : Text) :
    nextKey true (blanks ++ '"' :: rest) = .ok (true, rest) := by
  rw [nextKey, skipBlank_append_cons hb rfl]
  rfl

theorem nextKey_next {blanks : Text} (hb : IsBlankText blanks) (rest : Text) :
    nextKey false (',' :: (blanks ++ '"' :: rest)) = .ok (true, rest) := by
  have hcomma : isBlank ',' = false := rfl
  rw [nextKey, skipBlank_cons hcomma]
  dsimp only
  rw [skipBlank_append_cons hb rfl]
  rfl

/-- The fields after the first, up to the end of the object. -/
theorem readFields_renderFields (h : r.Collects s fields s') {l : Layout} (hl : l.IsBlank)
    (depth : Nat) {fuel closing : Text} (hfuel : fields.length < fuel.length)
    (hc : IsBlankText closing) (rest : Text) :
    r.readFields fuel false s (renderFields l depth fields ++ (closing ++ '\x7d' :: rest)) =
      .ok (s', '\x7d' :: rest) := by
  induction h generalizing fuel with
  | done s =>
    cases fuel with
    | nil => cases hfuel
    | cons x fuel => rw [renderFields, List.nil_append, readFields, nextKey_end false hc]
  | @field s s₁ s' name v reader fields hm hr _ ih =>
    cases fuel with
    | nil => cases hfuel
    | cons x fuel =>
      have hkey := nextKey_next (hl.lineBreak depth) (fieldText l depth name v
        (renderFields l depth fields ++ (closing ++ '\x7d' :: rest)))
      rw [renderFields, List.cons_append, List.cons_append, List.cons_append, List.append_assoc,
        List.append_assoc, renderField_append,
        readFields_cons hm hr hl hkey (isEnd_renderFields l depth fields hc rest),
        ih (Nat.lt_of_succ_lt_succ hfuel)]

theorem length_le_renderFields (l : Layout) (depth : Nat) (fields : List (String × Json)) :
    fields.length ≤ (renderFields l depth fields).length := by
  induction fields with
  | nil => exact Nat.zero_le _
  | cons field fields ih =>
    rw [renderFields, List.cons_append, List.cons_append, List.length_cons, List.length_cons,
      List.length_append]
    omega

/-- An object is read whose fields make up a value. -/
theorem Collects.reads (h : r.Collects r.start fields s') (hf : r.finish s' = .ok a) :
    Reader.Reads r.read (.object fields) a := by
  intro l depth blanks rest hl hb hr
  have hread : ∀ body, r.readFields ('\x7b' :: body) true r.start body = .ok (s', '\x7d' :: rest) →
      r.read (blanks ++ '\x7b' :: body) = .ok (a, rest) := by
    intro body hbody
    rw [read, skipBlank_append_cons hb rfl]
    show closeObject (r.complete (r.readFields ('\x7b' :: body) true r.start body)) = _
    rw [hbody, complete, hf]
    rfl
  cases h with
  | done =>
    rw [render, List.cons_append, List.cons_append, List.nil_append]
    refine hread _ ?_
    rw [readFields, ← List.nil_append ('\x7d' :: rest), nextKey_end true isBlankText_nil]
    rfl
  | @field _ s₁ _ name v reader fields hm hr hrest =>
    rw [render]
    simp only [List.cons_append, List.append_assoc, List.nil_append]
    rw [renderField_append]
    refine hread _ ?_
    have hkey := nextKey_first (hl.lineBreak (depth + 1)) (fieldText l (depth + 1) name v
      (renderFields l (depth + 1) fields ++ (l.lineBreak depth ++ '\x7d' :: rest)))
    rw [readFields_cons hm hr hl hkey (isEnd_renderFields l _ fields (hl.lineBreak depth) rest),
      readFields_renderFields hrest hl (depth + 1) ?_ (hl.lineBreak depth) rest]
    -- every field has a character of its own, so the fuel is enough
    have hlength := length_le_renderFields l (depth + 1) fields
    simp only [fieldText, List.length_append, List.length_cons]
    omega

end Record

/-! ## Whole texts -/

/-- A value is decoded from its text, in any layout of blanks and with blanks behind it. -/
theorem Reader.Reads.decode (h : reader.Reads v a) {l : Layout} (hl : l.IsBlank) {blanks : Text}
    (hb : IsBlankText blanks) : decode reader (render l 0 v ++ blanks) = .ok a := by
  have hend : IsEnd blanks := by
    rw [← List.append_nil blanks]
    exact isEnd_append hb trivial
  have hread := h l 0 [] blanks hl isBlankText_nil hend
  have hblank : skipBlank blanks = [] := by
    rw [← List.append_nil blanks, skipBlank_append hb]
    rfl
  rw [List.nil_append] at hread
  rw [Json.decode, hread]
  dsimp only
  rw [hblank]

end MemoryHard.Json
