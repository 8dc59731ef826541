import MemoryHard.Block.Permutation

/-!
# MemoryHard.Block.Derivation — a block from the two before it

A block is derived from the block it chains from and from a reference block.  A binding ties it
to its place and to the job: it overwrites fixed words of what goes into the permutation and of
what is added afterwards.

* `Binding.embed` — the words a binding overwrites;
* `Block.derive` — the derived block.
-/

namespace MemoryHard

/-- Eight words of 32 bits that stand for a job. -/
abbrev JobWords := Vector UInt32 8

/-- What ties a block to its job and to its place. -/
structure Binding where
  job : JobWords
  index : UInt64
deriving DecidableEq

namespace Binding

/-- The place of the block's index. -/
def indexWord : Fin 128 := 14

/-- Two words of the job as one, the first in the low half. -/
def pair (low high : UInt32) : UInt64 := low.toUInt64 ||| high.toUInt64 <<< 32

/-- Writes the index into word 14 and the words of the job, in pairs, into words 16 to 19. -/
def embed (b : Binding) (block : Block) : Block :=
  ⟨((((block.words.set indexWord b.index).set 16 (pair b.job[0] b.job[1])).set 17
    (pair b.job[2] b.job[3])).set 18 (pair b.job[4] b.job[5])).set 19 (pair b.job[6] b.job[7])⟩

/-- Writes a binding if there is one. -/
def embed? : Option Binding → Block → Block
  | none, block => block
  | some b, block => b.embed block

end Binding

namespace Block

/-- The block derived from the block `previous` it chains from and from `reference`.  With
`old` the block that stood in its place before is added in. -/
def derive (previous reference : Block) (old : Option Block) (binding : Option Binding) : Block :=
  let mixed := reference ^^^ previous
  let added :=
    match old with
    | some block => mixed ^^^ block
    | none => mixed
  permute (Binding.embed? binding mixed) ^^^ Binding.embed? binding added

end Block

end MemoryHard
