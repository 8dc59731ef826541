import Mathlib.Tactic.SplitIfs
import MemoryHard.Proofs.Block.Xor

/-!
# MemoryHard.Proofs.Block.Accumulation — what a derived block takes from the old one

Without a binding the old block is added to the derived one.  A binding overwrites five words of
what goes into the permutation and of what is added after it, so from those words of the old block
and of the mixture nothing comes through.

* `Binding.Overwrites`, `getElem_embed` — the words that a binding overwrites;
* `AgreesFreely`, `embed_eq_embed_iff` — blocks that are the same in the other words;
* `getElem_derive_bound`, `derive_bound_congr` — what a bound block takes from where;
* `derive_accumulates` — all of it.
-/

namespace MemoryHard

/-! ## The words of a binding -/

namespace Binding

/-- A binding overwrites word 14 and words 16 to 19. -/
def Overwrites (i : Nat) : Prop := i = 14 ∨ 16 ≤ i ∧ i ≤ 19

instance (i : Nat) : Decidable (Overwrites i) := inferInstanceAs (Decidable (_ ∨ _))

theorem getElem_embed (b : Binding) (block : Block) {i : Nat} (hi : i < 128) :
    (b.embed block).words[i] =
      if i = 14 then b.index
      else if i = 16 then pair b.job[0] b.job[1]
      else if i = 17 then pair b.job[2] b.job[3]
      else if i = 18 then pair b.job[4] b.job[5]
      else if i = 19 then pair b.job[6] b.job[7]
      else block.words[i] := by
  have hplace : (indexWord : Nat) = 14 := rfl
  simp only [embed, Vector.getElem_set, hplace]
  split_ifs <;> first | rfl | omega

variable {b : Binding} {x y : Block} {i : Nat}

theorem getElem_embed_of_not_overwrites (hi : i < 128) (h : ¬Overwrites i) :
    (b.embed x).words[i] = x.words[i] := by
  unfold Overwrites at h
  rw [getElem_embed b x hi, if_neg (by omega), if_neg (by omega), if_neg (by omega),
    if_neg (by omega), if_neg (by omega)]

/-- What stood in an overwritten word is forgotten. -/
theorem getElem_embed_of_overwrites (hi : i < 128) (h : Overwrites i) :
    (b.embed x).words[i] = (b.embed y).words[i] := by
  rw [getElem_embed b x hi, getElem_embed b y hi]
  unfold Overwrites at h
  split_ifs <;> first | rfl | omega

end Binding

/-! ## Blocks in the words that are left alone -/

namespace Block

open Binding

/-- Two blocks are the same in all words that a binding leaves alone. -/
def AgreesFreely (a b : Block) : Prop :=
  ∀ (i : Nat) (hi : i < 128), ¬Overwrites i → a.words[i] = b.words[i]

theorem AgreesFreely.refl (a : Block) : a.AgreesFreely a := fun _ _ _ => rfl

theorem agreesFreely_embed (b : Binding) (a : Block) : a.AgreesFreely (b.embed a) :=
  fun _ hi hfree => (getElem_embed_of_not_overwrites hi hfree).symm

theorem AgreesFreely.xor {a a' b b' : Block} (ha : a.AgreesFreely a') (hb : b.AgreesFreely b') :
    (a ^^^ b).AgreesFreely (a' ^^^ b') := by
  intro i hi hfree
  rw [getElem_xor, getElem_xor, ha i hi hfree, hb i hi hfree]

/-- With a binding written into them, blocks are told apart by the words it leaves alone. -/
theorem embed_eq_embed_iff {b : Binding} {x y : Block} :
    b.embed x = b.embed y ↔ x.AgreesFreely y := by
  constructor
  · intro h i hi hfree
    rw [← getElem_embed_of_not_overwrites (b := b) hi hfree, h,
      getElem_embed_of_not_overwrites hi hfree]
  · intro h
    apply ext_words
    intro i hi
    by_cases hover : Overwrites i
    · exact getElem_embed_of_overwrites hi hover
    · rw [getElem_embed_of_not_overwrites hi hover, getElem_embed_of_not_overwrites hi hover,
        h i hi hover]

/-! ## Bound blocks -/

variable {previous reference previous' reference' old old' : Block}

theorem derive_none_bound (previous reference : Block) (b : Binding) :
    derive previous reference none (some b) =
      permute (b.embed (reference ^^^ previous)) ^^^ b.embed (reference ^^^ previous) := rfl

theorem derive_some_bound (previous reference old : Block) (b : Binding) :
    derive previous reference (some old) (some b) =
      permute (b.embed (reference ^^^ previous)) ^^^
        b.embed (reference ^^^ previous ^^^ old) := rfl

/-- The old block is added to a bound block in the words that the binding leaves alone. -/
theorem getElem_derive_bound (previous reference old : Block) (b : Binding) {i : Nat}
    (hi : i < 128) :
    (derive previous reference (some old) (some b)).words[i] =
      if Overwrites i then (derive previous reference none (some b)).words[i]
      else (derive previous reference none (some b)).words[i] ^^^ old.words[i] := by
  rw [derive_some_bound, derive_none_bound, getElem_xor, getElem_xor]
  split_ifs with hover
  · rw [getElem_embed_of_overwrites hi hover]
  · rw [getElem_embed_of_not_overwrites hi hover, getElem_embed_of_not_overwrites hi hover,
      getElem_xor, UInt64.xor_assoc]

/-- To have no old block is to have zeros for one. -/
theorem derive_none_eq_zero (previous reference : Block) (binding : Option Binding) :
    derive previous reference none binding = derive previous reference (some zero) binding := by
  unfold derive
  dsimp only
  rw [xor_comm _ zero, zero_xor]

/-- The words that a binding overwrites do not count, be it in the mixture or in the old block. -/
theorem derive_bound_congr (b : Binding)
    (hmix : (previous ^^^ reference).AgreesFreely (previous' ^^^ reference'))
    (hold : old.AgreesFreely old') :
    derive previous' reference' (some old') (some b) =
      derive previous reference (some old) (some b) := by
  rw [xor_comm previous, xor_comm previous'] at hmix
  rw [derive_some_bound, derive_some_bound, embed_eq_embed_iff.2 hmix,
    embed_eq_embed_iff.2 (hmix.xor hold)]

/-- The law of unbound blocks holds for a bound one only if nothing is lost. -/
theorem derive_bound_eq_xor_iff (b : Binding) :
    derive previous reference (some old) (some b) =
        derive previous reference none (some b) ^^^ old ↔
      ∀ (i : Nat) (hi : i < 128), Overwrites i → old.words[i] = 0 := by
  constructor
  · intro h i hi hover
    have hword := getElem_derive_bound previous reference old b hi
    rw [h, if_pos hover, getElem_xor] at hword
    exact (UInt64.xor_right_inj _).1 (hword.trans UInt64.xor_zero.symm)
  · intro h
    apply ext_words
    intro i hi
    rw [getElem_derive_bound previous reference old b hi, getElem_xor]
    split_ifs with hover
    · rw [h i hi hover, UInt64.xor_zero]
    · rfl

/-- Without a binding the old block is added in all words.  With one it is added in all words but
those that the binding overwrites; there it leaves no trace, and neither does what stands there in
the two blocks mixed together.  So the law of unbound blocks fails as soon as the old block has
anything in one of these words. -/
theorem derive_accumulates (previous reference old : Block) :
    derive previous reference (some old) none = derive previous reference none none ^^^ old ∧
    ∀ b : Binding,
      (∀ (i : Nat) (hi : i < 128),
        (derive previous reference (some old) (some b)).words[i] =
          if Overwrites i then (derive previous reference none (some b)).words[i]
          else (derive previous reference none (some b)).words[i] ^^^ old.words[i]) ∧
      (∀ previous' reference' : Block,
        (previous ^^^ reference).AgreesFreely (previous' ^^^ reference') →
          derive previous' reference' none (some b) = derive previous reference none (some b) ∧
          ∀ old' : Block, old.AgreesFreely old' →
            derive previous' reference' (some old') (some b) =
              derive previous reference (some old) (some b)) ∧
      (derive previous reference (some old) (some b) =
          derive previous reference none (some b) ^^^ old ↔
        ∀ (i : Nat) (hi : i < 128), Overwrites i → old.words[i] = 0) := by
  refine ⟨derive_some previous reference old, fun b => ⟨?_, ?_, derive_bound_eq_xor_iff b⟩⟩
  · intro i hi
    exact getElem_derive_bound previous reference old b hi
  · intro previous' reference' hmix
    refine ⟨?_, fun _ hold => derive_bound_congr b hmix hold⟩
    -- no old block is an old block of zeros on both sides
    rw [derive_none_eq_zero, derive_none_eq_zero]
    exact derive_bound_congr b hmix (.refl zero)

/-- In place of zeros the block before and the old block have the words of another binding. -/
theorem derive_accumulates_embedded :
    let b : Binding := ⟨#v[1, 2, 3, 4, 5, 6, 7, 8], 10⟩
    let x : Block := Binding.embed ⟨#v[9, 8, 7, 6, 5, 4, 3, 2], 11⟩ zero
    x.words[14] = 11 ∧ zero.AgreesFreely x ∧ (zero ^^^ zero).AgreesFreely (x ^^^ zero) ∧
      derive x zero none (some b) = derive zero zero none (some b) ∧
      derive x zero (some x) (some b) = derive zero zero (some zero) (some b) := by
  intro b x
  have hold : zero.AgreesFreely x := agreesFreely_embed _ _
  have hmix : (zero ^^^ zero).AgreesFreely (x ^^^ zero) := hold.xor (.refl zero)
  have hlaw := ((derive_accumulates zero zero zero).2 b).2.1 x zero hmix
  exact ⟨rfl, hold, hmix, hlaw.1, hlaw.2 x hold⟩

end Block

end MemoryHard
