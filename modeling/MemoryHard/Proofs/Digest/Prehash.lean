import MemoryHard.Digest.Standard
import MemoryHard.Prehash

/-!
# MemoryHard.Proofs.Digest.Prehash — what a prehash stands for

The message behind a prehash begins with numbers of a fixed width, and each string in it comes after
its length.  So it can be taken apart from the front in one way only, as long as the lengths of the
strings fit into the four bytes in front of them.

* `Bytes.le32_append_inj`, `withLength_append_inj` — a number, and a string after its length, at
  the front of a message;
* `SameStart`, `prehashMessage_eq_iff` — what a message determines;
* `prehashMessage_swap_zeros` — longer strings can be taken for each other;
* `prehash_unambiguous` — what a prehash determines, as far as there is no collision.
-/

namespace MemoryHard

open MemoryHard.Bytes

/-! ## The front of a message -/

namespace Bytes

theorem leBytes_inj {w m n : Nat} (hm : m < Nat.pow 256 w) (hn : n < Nat.pow 256 w)
    (h : leBytes w m = leBytes w n) : m = n := by
  have hback := congrArg leNat h
  rwa [leNat_leBytes, leNat_leBytes, Nat.mod_eq_of_lt hm, Nat.mod_eq_of_lt hn] at hback

theorem le32_append_inj {x y : UInt32} {a b : Bytes} (h : le32 x ++ a = le32 y ++ b) :
    x = y ∧ a = b := by
  obtain ⟨hfront, hrest⟩ := List.append_inj h (by rw [length_le32, length_le32])
  have hx : x.toNat < Nat.pow 256 4 := x.toNat_lt
  have hy : y.toNat < Nat.pow 256 4 := y.toNat_lt
  exact ⟨UInt32.toNat_inj.1 (leBytes_inj hx hy hfront), hrest⟩

end Bytes

/-- The length of a string fits into the four bytes in front of it. -/
def HasPrefix (b : Bytes) : Prop := b.length < UInt32.size

/-- A string after its length can be split off, whatever bytes it is made of. -/
theorem withLength_append_inj {x y a b : Bytes} (hx : HasPrefix x) (hy : HasPrefix y)
    (h : withLength x ++ a = withLength y ++ b) : x = y ∧ a = b := by
  have hx4 : x.length < Nat.pow 256 4 := hx
  have hy4 : y.length < Nat.pow 256 4 := hy
  rw [withLength, withLength, List.append_assoc, List.append_assoc] at h
  obtain ⟨hfront, hrest⟩ := List.append_inj h (by rw [length_leBytes, length_leBytes])
  exact List.append_inj hrest (leBytes_inj hx4 hy4 hfront)

/-! ## The message -/

/-- The lengths of all strings fit into the bytes in front of them. -/
structure HashInputs.HavePrefixes (i : HashInputs) : Prop where
  password : HasPrefix i.password
  salt : HasPrefix i.salt
  secret : HasPrefix i.secret
  associatedData : HasPrefix i.associatedData

/-- Two choices of parameters and strings agree in all that a prehash takes in.  The parameters of
the commitment and of the search may differ. -/
structure SameStart (p p' : Params) (i i' : HashInputs) : Prop where
  lanes : p.lanes = p'.lanes
  tagLength : p.tagLength = p'.tagLength
  memoryCost : p.memoryCost = p'.memoryCost
  passes : p.passes = p'.passes
  password : i.password = i'.password
  salt : i.salt = i'.salt
  secret : i.secret = i'.secret
  associatedData : i.associatedData = i'.associatedData

variable {p p' : Params} {i i' : HashInputs}

theorem prehashMessage_congr (h : SameStart p p' i i') :
    prehashMessage p i = prehashMessage p' i' := by
  unfold prehashMessage
  rw [h.lanes, h.tagLength, h.memoryCost, h.passes, h.password, h.salt, h.secret,
    h.associatedData]

theorem sameStart_of_prehashMessage (hi : i.HavePrefixes) (hi' : i'.HavePrefixes)
    (h : prehashMessage p i = prehashMessage p' i') : SameStart p p' i i' := by
  simp only [prehashMessage, List.append_assoc] at h
  obtain ⟨hlanes, h⟩ := le32_append_inj h
  obtain ⟨htag, h⟩ := le32_append_inj h
  obtain ⟨hcost, h⟩ := le32_append_inj h
  obtain ⟨hpasses, h⟩ := le32_append_inj h
  -- version and variant are the same in all messages
  obtain ⟨-, h⟩ := le32_append_inj h
  obtain ⟨-, h⟩ := le32_append_inj h
  obtain ⟨hpassword, h⟩ := withLength_append_inj hi.password hi'.password h
  obtain ⟨hsalt, h⟩ := withLength_append_inj hi.salt hi'.salt h
  obtain ⟨hsecret, h⟩ := withLength_append_inj hi.secret hi'.secret h
  have hdata : withLength i.associatedData ++ [] = withLength i'.associatedData ++ [] := by
    rw [List.append_nil, List.append_nil, h]
  obtain ⟨hdata, -⟩ := withLength_append_inj hi.associatedData hi'.associatedData hdata
  exact ⟨hlanes, htag, hcost, hpasses, hpassword, hsalt, hsecret, hdata⟩

theorem prehashMessage_eq_iff (hi : i.HavePrefixes) (hi' : i'.HavePrefixes) :
    prehashMessage p i = prehashMessage p' i' ↔ SameStart p p' i i' :=
  ⟨sameStart_of_prehashMessage hi hi', prehashMessage_congr⟩

/-- The length of `2 ^ 32` zeros is written like that of the empty string, so nothing tells whether
they are the password or the salt. -/
theorem prehashMessage_swap_zeros (p : Params) :
    let zeros : Bytes := List.replicate UInt32.size 0
    prehashMessage p ⟨zeros, [], [], []⟩ = prehashMessage p ⟨[], zeros, [], []⟩ := by
  intro zeros
  have hempty : withLength [] = List.replicate 4 0 := rfl
  have hzeros : withLength zeros = List.replicate (4 + UInt32.size) 0 := by
    rw [withLength, List.length_replicate, ← List.replicate_append_replicate]
    rfl
  have hswap : withLength zeros ++ withLength [] = withLength [] ++ withLength zeros := by
    rw [hempty, hzeros, List.replicate_append_replicate, List.replicate_append_replicate,
      Nat.add_comm]
  simp only [prehashMessage, List.append_assoc]
  rw [← List.append_assoc (withLength zeros), hswap, List.append_assoc]

/-! ## The prehash -/

/-- Two jobs with one prehash agree in all that it takes in, or what is hashed for them are two
different messages with the same digest of 64 bytes, which is Blake2b-512 in the standard suite. -/
theorem prehash_unambiguous [HashSuite] (hi : i.HavePrefixes) (hi' : i'.HavePrefixes)
    (h : prehash p i = prehash p' i') :
    (prehashMessage p i = prehashMessage p' i' ∧ SameStart p p' i i') ∨
      (prehashMessage p i ≠ prehashMessage p' i' ∧
        HashSuite.wide 64 (prehashMessage p i) = HashSuite.wide 64 (prehashMessage p' i')) := by
  by_cases hsame : prehashMessage p i = prehashMessage p' i'
  · exact .inl ⟨hsame, (prehashMessage_eq_iff hi hi').1 hsame⟩
  · exact .inr ⟨hsame, h⟩

/-- The password looks like the length of an empty string, and the parameters differ where the
prehash does not look. -/
theorem prehash_unambiguous_zeros :
    let p : Params := { nodeSize := 32, searchLength := 1, jobs := 4 }
    let i : HashInputs := ⟨[0, 0, 0, 0], [], [], [1]⟩
    i.HavePrefixes ∧ prehash {} i = prehash p i ∧
      ((prehashMessage {} i = prehashMessage p i ∧ SameStart {} p i i) ∨
        (prehashMessage {} i ≠ prehashMessage p i ∧
          HashSuite.wide 64 (prehashMessage {} i) = HashSuite.wide 64 (prehashMessage p i))) := by
  intro p i
  have hi : i.HavePrefixes := by constructor <;> (unfold HasPrefix; decide)
  have hsame : SameStart {} p i i := ⟨rfl, rfl, rfl, rfl, rfl, rfl, rfl, rfl⟩
  have h : prehash {} i = prehash p i :=
    congrArg (HashSuite.wide 64) (prehashMessage_congr hsame)
  exact ⟨hi, h, prehash_unambiguous hi hi h⟩

end MemoryHard
