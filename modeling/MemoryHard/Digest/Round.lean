/-!
# MemoryHard.Digest.Round — rounds over sixteen words

The words of a round stand in a square of four rows of four, and a step that updates four words
runs down the four columns and then down the four diagonals.  Steps turn words by some bits.

* `Four` — four things of a kind, `a` to `d`;
* `mixAt` — a step on the four words of a vector that four indices name;
* `quads` — the indices of the eight steps, columns first;
* `intake` — the words of a message block as the steps take them in;
* `rotateRight64`, `rotateRight32` — a word turned.
-/

namespace MemoryHard.Digest

/-- Four things of one kind. -/
structure Four (α : Type) where
  a : α
  b : α
  c : α
  d : α
deriving DecidableEq, Repr

/-- The images of the four. -/
def Four.map {α β : Type} (f : α → β) (q : Four α) : Four β := ⟨f q.a, f q.b, f q.c, f q.d⟩

/-- The step `f` on the words of `v` at the indices `q`; all others stay as they are. -/
@[inline] def mixAt {α : Type} {n : Nat} (f : Four α → Four α) (v : Vector α n)
    (q : Four (Fin n)) : Vector α n :=
  let r := f ⟨v[q.a], v[q.b], v[q.c], v[q.d]⟩
  (((v.set q.a r.a).set q.b r.b).set q.c r.c).set q.d r.d

/-- The indices of a round's steps in a square of sixteen words: the columns, then the
diagonals. -/
def quads : Vector (Four (Fin 16)) 8 :=
  #v[⟨0, 4, 8, 12⟩, ⟨1, 5, 9, 13⟩, ⟨2, 6, 10, 14⟩, ⟨3, 7, 11, 15⟩,
     ⟨0, 5, 10, 15⟩, ⟨1, 6, 11, 12⟩, ⟨2, 7, 8, 13⟩, ⟨3, 4, 9, 14⟩]

/-- Sixteen things in the order in which a round takes them in: what the columns take first and
second, then the same for the diagonals. -/
@[inline] def intake {α : Type} (o : Vector α 16) : Four (Four α) :=
  ⟨⟨o[0], o[2], o[4], o[6]⟩, ⟨o[1], o[3], o[5], o[7]⟩,
    ⟨o[8], o[10], o[12], o[14]⟩, ⟨o[9], o[11], o[13], o[15]⟩⟩

/-- A 64-bit word turned right by `k` bits, for `0 < k < 64`. -/
@[inline] def rotateRight64 (x k : UInt64) : UInt64 := x >>> k ||| x <<< (64 - k)

/-- A 32-bit word turned right by `k` bits, for `0 < k < 32`. -/
@[inline] def rotateRight32 (x k : UInt32) : UInt32 := x >>> k ||| x <<< (32 - k)

end MemoryHard.Digest
