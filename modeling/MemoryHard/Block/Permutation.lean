import MemoryHard.Block
import MemoryHard.Digest.Round

/-!
# MemoryHard.Block.Permutation — the permutation of a block

The 128 words of a block stand in eight rows of sixteen.  The permutation runs a round over each
row and then a round over each of eight columns, a column being a pair of neighbouring words in
every row.

* `hardAdd` — addition made hard by a product of the low halves;
* `Block.permute` — the permutation.
-/

namespace MemoryHard

open MemoryHard.Digest

/-- The low 32 bits of a word. -/
@[inline] def lowHalf (x : UInt64) : UInt64 := x &&& 0xffffffff

/-- The sum of two words and twice the product of their low halves. -/
@[inline] def hardAdd (x y : UInt64) : UInt64 := x + y + 2 * (lowHalf x * lowHalf y)

namespace Block

/-- One step on four words. -/
@[inline] def step (q : Four UInt64) : Four UInt64 :=
  let a := hardAdd q.a q.b
  let d := rotateRight64 (q.d ^^^ a) 32
  let c := hardAdd q.c d
  let b := rotateRight64 (q.b ^^^ c) 24
  let a := hardAdd a b
  let d := rotateRight64 (d ^^^ a) 16
  let c := hardAdd c d
  let b := rotateRight64 (b ^^^ c) 63
  ⟨a, b, c, d⟩

/-- A round over the sixteen words at the given places. -/
def round (place : Fin 16 → Fin 128) (w : Vector UInt64 128) : Vector UInt64 128 :=
  quads.toList.foldl (fun w q => mixAt step w (q.map place)) w

/-- The place of word `k` of row `r`. -/
def rowPlace (r : Fin 8) (k : Fin 16) : Fin 128 := ⟨16 * r.val + k.val, by omega⟩

/-- The place of word `k` of column `c`. -/
def columnPlace (c : Fin 8) (k : Fin 16) : Fin 128 :=
  ⟨2 * c.val + 16 * (k.val / 2) + k.val % 2, by omega⟩

/-- The rounds over the eight rows. -/
def permuteRows (w : Vector UInt64 128) : Vector UInt64 128 :=
  (List.finRange 8).foldl (fun w r => round (rowPlace r) w) w

/-- The rounds over the eight columns. -/
def permuteColumns (w : Vector UInt64 128) : Vector UInt64 128 :=
  (List.finRange 8).foldl (fun w c => round (columnPlace c) w) w

/-- The permutation of a block: rows, then columns. -/
def permute (b : Block) : Block := ⟨permuteColumns (permuteRows b.words)⟩

end Block

end MemoryHard
