import MemoryHard.Block.Derivation

/-!
# MemoryHard.Proofs.Block.Xor — adding blocks up

* `xor_comm`, `xor_assoc`, `zero_xor` — exclusive or of blocks;
* `derive_none`, `derive_some` — the derived block without a binding.
-/

namespace MemoryHard.Block

variable {a b : Block}

theorem ext_words (h : ∀ (i : Nat) (hi : i < 128), a.words[i] = b.words[i]) : a = b := by
  cases a
  cases b
  exact congrArg Block.mk (Vector.ext h)

theorem getElem_xor (a b : Block) {i : Nat} (hi : i < 128) :
    (a ^^^ b).words[i] = a.words[i] ^^^ b.words[i] :=
  Vector.getElem_zipWith hi

theorem xor_comm (a b : Block) : a ^^^ b = b ^^^ a := by
  apply ext_words
  intro i hi
  rw [getElem_xor, getElem_xor, UInt64.xor_comm]

theorem xor_assoc (a b c : Block) : a ^^^ b ^^^ c = a ^^^ (b ^^^ c) := by
  apply ext_words
  intro i hi
  simp only [getElem_xor, UInt64.xor_assoc]

theorem zero_xor (a : Block) : zero ^^^ a = a := by
  apply ext_words
  intro i hi
  rw [getElem_xor]
  show (Vector.replicate 128 0)[i] ^^^ a.words[i] = a.words[i]
  rw [Vector.getElem_replicate, UInt64.zero_xor]

theorem derive_none (previous reference : Block) :
    derive previous reference none none =
      permute (reference ^^^ previous) ^^^ (reference ^^^ previous) := rfl

/-- Without a binding the old block is simply added to the new one. -/
theorem derive_some (previous reference old : Block) :
    derive previous reference (some old) none = derive previous reference none none ^^^ old := by
  rw [derive_none, xor_assoc]
  rfl

end MemoryHard.Block
