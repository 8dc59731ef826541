import MemoryHard.Digest.Buffer
import MemoryHard.Digest.Standard
import MemoryHard.Proofs.Digest.Widths
import MemoryHard.Proofs.Geometry.Checked

/-!
# MemoryHard.Proofs.Digest.Output — what a stretched digest is made of

The output of a stretched digest is one digest where it is short.  Else it is made of the first
halves of so many links that more than 32 and at most 64 bytes are left, and of one digest that is
as wide as what is left.  Written into a buffer it leaves nothing of what was there.

* `overwrite?_eq_some`, `overwrite?_of_reaches_end` — a run of bytes in a buffer;
* `chain_link`, `stretch_eq_linked` — the output from its links;
* `writeLinks?_eq`, `stretchInto?_eq` — what is written into a buffer;
* `output_of_any_length` — all of it, for outputs of any length and inputs in any parts.
-/

namespace MemoryHard.Digest

open MemoryHard.Bytes MemoryHard.Word HashSuite

/-! ## Runs of bytes in a buffer -/

theorem overwrite?_eq_some {buffer run : Bytes} {start : Nat}
    (h : start + run.length ≤ buffer.length) :
    overwrite? buffer start run =
      some (buffer.take start ++ run ++ buffer.drop (start + run.length)) := if_pos h

/-- A run that reaches up to the end leaves nothing behind it. -/
theorem overwrite?_of_reaches_end {buffer run : Bytes} {start : Nat}
    (h : start + run.length = buffer.length) :
    overwrite? buffer start run = some (buffer.take start ++ run) := by
  rw [overwrite?_eq_some h.le, h, List.drop_length, List.append_nil]

/-! ## The links of an output -/

variable {length : Nat}

theorem halfCount_pos (h : ¬ length ≤ 64) : 0 < halfCount length := by
  unfold halfCount
  omega

section
variable [HashSuite]

/-- What comes behind link number `i`: the halves of the links that follow, and what is left. -/
theorem chain_link (input : Bytes) {i n : Nat} (h : halfCount length = i + 1 + n) :
    chain (length - 32 * (i + 1)) (link length input i) =
      (List.range' (i + 1) n).flatMap (fun k => (link length input k).take 32) ++
        wide (length - 32 * halfCount length) (link length input (halfCount length - 1)) := by
  induction n generalizing i with
  | zero =>
    have hcount : halfCount length = i + 1 := h
    unfold halfCount at h
    rw [chain, if_pos (by omega), hcount]
    rfl
  | succ n ih =>
    have hnext : halfCount length = i + 1 + 1 + n := by omega
    -- more than 64 bytes are left in front of the link that follows
    have hlong : ¬ length - 32 * (i + 1) ≤ 64 := by
      unfold halfCount at h
      omega
    have hrest : length - 32 * (i + 1) - 32 = length - 32 * (i + 1 + 1) := by omega
    have hlink : wide 64 (link length input i) = link length input (i + 1) := rfl
    rw [chain, if_neg hlong]
    dsimp only
    rw [hrest, hlink, ih hnext, List.range'_succ, List.flatMap_cons, List.append_assoc]

theorem stretch_eq_linked (length : Nat) (input : Bytes) :
    stretch length input = linked length input := by
  unfold stretch linked
  dsimp only
  by_cases hshort : length ≤ 64
  · rw [if_pos hshort, if_pos hshort]
  · -- link 0 is made from the input itself, and the chain takes over from link 1
    obtain ⟨n, hn⟩ := Nat.exists_eq_add_of_lt (halfCount_pos hshort)
    have hcount : halfCount length = 0 + 1 + n := by omega
    have hfirst : wide 64 (leBytes 4 length ++ input) = link length input 0 := rfl
    have hrange : List.range (halfCount length) = 0 :: List.range' 1 n := by
      rw [hcount, Nat.add_comm, Nat.zero_add, List.range_eq_range', List.range'_succ]
    have hrest := chain_link input hcount
    rw [Nat.zero_add, Nat.mul_one] at hrest
    rw [if_neg hshort, if_neg hshort, hfirst, hrest, hrange, List.flatMap_cons, List.append_assoc]

/-! ## Filling a buffer -/

theorem length_take_wide (msg : Bytes) : ((wide 64 msg).take 32).length = 32 := by
  rw [List.length_take, length_wide 64 msg le_rfl]
  rfl

/-- The half of a link in a buffer: as long as before, and filled 32 bytes further. -/
theorem overwrite?_half {buffer : Bytes} {start : Nat} (h : start + 32 ≤ buffer.length)
    (msg : Bytes) :
    ∃ buffer', overwrite? buffer start ((wide 64 msg).take 32) = some buffer' ∧
      buffer'.length = buffer.length ∧
      buffer'.take (start + 32) = buffer.take start ++ (wide 64 msg).take 32 := by
  have hhalf := length_take_wide msg
  have hstart : (buffer.take start).length = start := by
    rw [List.length_take]
    omega
  have hfilled : (buffer.take start ++ (wide 64 msg).take 32).length = start + 32 := by
    rw [List.length_append, hstart, hhalf]
  refine ⟨_, overwrite?_eq_some (by omega), ?_, ?_⟩
  · rw [List.length_append, hfilled, List.length_drop, hhalf]
    omega
  · rw [List.take_left' hfilled]

theorem hashParts?_eq_some {width : Nat} (h1 : 1 ≤ width) (h2 : width ≤ maxWidth)
    (parts : List Bytes) : hashParts? width parts = some (wide width parts.flatten) :=
  hash?_eq_some h1 h2 _

/-- What is written keeps the bytes that are there and puts the rest of the chain behind them. -/
theorem writeLinks?_eq {rounds : Nat} {buffer : Bytes} {written : Nat}
    (hleft : written < buffer.length) (hrounds : buffer.length - written ≤ 32 * rounds + 32)
    (hsome : 0 < rounds) (v : Bytes) :
    writeLinks? rounds buffer written v =
      some (buffer.take written ++ chain (buffer.length - written) v) := by
  induction rounds generalizing buffer written v with
  | zero => omega
  | succ rounds ih =>
    rw [writeLinks?, sub?_eq_some hleft.le, chain]
    simp only [Option.bind_eq_bind, Option.bind_some]
    -- the last link is written whole, of any other one the first half
    by_cases hlast : buffer.length - written ≤ 64
    · rw [if_pos hlast, if_pos hlast, hashParts?_eq_some (by omega) hlast, List.flatten_singleton,
        Option.bind_some]
      apply overwrite?_of_reaches_end
      rw [length_wide _ v hlast]
      omega
    · have hroom : written + 32 ≤ buffer.length := by omega
      obtain ⟨buffer', hwrite, hlength, hfilled⟩ := overwrite?_half hroom v
      have hrest : buffer.length - (written + 32) = buffer.length - written - 32 := by omega
      rw [if_neg hlast, if_neg hlast, hashParts?_eq_some (by decide) (by decide),
        List.flatten_singleton, Option.bind_some, hwrite, Option.bind_some,
        ih (by omega) (by omega) (by omega), hfilled, hlength, hrest, List.append_assoc]

theorem stretchInto?_eq {rounds : Nat} {buffer : Bytes} (hpos : 1 ≤ buffer.length)
    (hlt : buffer.length < UInt32.size) (hrounds : halfCount buffer.length ≤ rounds)
    (parts : List Bytes) :
    stretchInto? rounds buffer parts = some (stretch buffer.length parts.flatten) := by
  have hfront : le32 (UInt32.ofNat buffer.length) = leBytes 4 buffer.length := by
    rw [le32, UInt32.toNat_ofNat_of_lt' hlt]
  unfold stretchInto? stretch
  dsimp only
  rw [hfront]
  by_cases hshort : buffer.length ≤ 64
  · rw [if_pos hshort, if_pos hshort, hashParts?_eq_some hpos hshort, List.flatten_cons,
      Option.bind_eq_bind, Option.bind_some]
    apply overwrite?_of_reaches_end
    rw [length_wide _ _ hshort, Nat.zero_add]
  · have hroom : 0 + 32 ≤ buffer.length := by omega
    obtain ⟨buffer', hwrite, hlength, hfilled⟩ :=
      overwrite?_half hroom (leBytes 4 buffer.length ++ parts.flatten)
    have hcount := halfCount_pos hshort
    have henough : buffer.length ≤ 32 * rounds + 64 := by
      unfold halfCount at hrounds
      omega
    rw [if_neg hshort, if_neg hshort, hashParts?_eq_some (by decide) (by decide),
      List.flatten_cons]
    simp only [Option.bind_eq_bind, Option.bind_some]
    rw [hwrite, Option.bind_some, writeLinks?_eq (by omega) (by omega) (by omega), hlength]
    rw [Nat.zero_add, List.take_zero, List.nil_append] at hfilled
    rw [hfilled]

end

/-! ## Outputs of any length -/

/-- The length goes unchanged into the four bytes in front of the input.  With every width in
range the output is the one put together from the links: as long as asked for, and what a buffer
of that length holds in the end, whatever was in it and however the input is split. -/
theorem output_of_any_length [HashSuite] {length : Nat} (hpos : 1 ≤ length)
    (hlt : length < UInt32.size) (parts : List Bytes) :
    leNat (leBytes 4 length) = length ∧
      stretch? length parts.flatten = some (linked length parts.flatten) ∧
      stretch length parts.flatten = linked length parts.flatten ∧
      (linked length parts.flatten).length = length ∧
      ∀ (buffer : Bytes), buffer.length = length → ∀ (rounds : Nat), halfCount length ≤ rounds →
        stretchInto? rounds buffer parts = some (linked length parts.flatten) := by
  have hlinked := stretch_eq_linked length parts.flatten
  refine ⟨?_, ?_, hlinked, ?_, ?_⟩
  · rw [leNat_leBytes]
    exact Nat.mod_eq_of_lt hlt
  · rw [stretch?_eq_some hpos, hlinked]
  · rw [← hlinked, length_stretch]
  · rintro buffer rfl rounds hrounds
    rw [stretchInto?_eq hpos hlt hrounds, hlinked]

/-- One byte more than three halves: two links give their half, and 33 bytes are left.  The buffer
is full of other bytes, and the input comes in three parts. -/
theorem output_of_any_length_ninety_seven :
    stretchInto? 2 (List.replicate 97 255) [[1], [], [2, 3]] = some (linked 97 [1, 2, 3]) ∧
      linked 97 [1, 2, 3] =
        (Blake2b.digest 64 [97, 0, 0, 0, 1, 2, 3]).take 32 ++
          (Blake2b.digest 64 (Blake2b.digest 64 [97, 0, 0, 0, 1, 2, 3])).take 32 ++
          Blake2b.digest 33 (Blake2b.digest 64 (Blake2b.digest 64 [97, 0, 0, 0, 1, 2, 3])) := by
  have houtput := output_of_any_length (by decide : 1 ≤ 97) (by decide) [[1], [], [2, 3]]
  have hlinks : List.range (halfCount 97) = [0, 1] := by decide
  refine ⟨houtput.2.2.2.2 (List.replicate 97 255) List.length_replicate 2 (by decide), ?_⟩
  rw [linked, if_neg (by decide)]
  dsimp only
  rw [hlinks, List.flatMap_cons, List.flatMap_singleton]
  rfl

end MemoryHard.Digest
