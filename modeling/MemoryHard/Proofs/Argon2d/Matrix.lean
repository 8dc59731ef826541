import MemoryHard.Digest.Links
import MemoryHard.Prehash
import MemoryHard.Proofs.Argon2d.Compression

/-!
# MemoryHard.Proofs.Argon2d.Matrix — Argon2d as RFC 9106 has it

The blocks form a matrix with a row for each lane.  Its columns are filled pass by pass, slice by
slice, row by row and from left to right; the first two columns are drawn from a hash of all inputs.
The reference of a block is taken from a set of columns that is listed here column by column, oldest
first.  The hash of any length, `H'` of the RFC, is `Digest.linked`.

* `window` — the columns that a block may refer to, with `pick` for the choice among them;
* `nextBlock` — the block for a place;
* `fillBlock`, `fillSegment`, `fillSlice`, `fillPass` — the loops;
* `initialHash` — the hash of all inputs, `H_0` of the RFC;
* `tag` — the output.
-/

namespace MemoryHard.Argon2d

open MemoryHard.Bytes

/-- The blocks by row and column. -/
structure Matrix where
  block : Nat → Nat → Square

/-- A matrix with another block in one place. -/
def Matrix.set (B : Matrix) (i j : Nat) (b : Square) : Matrix where
  block i' j' := if i' = i ∧ j' = j then b else B.block i' j'

/-- The columns of segment number `n`.  The segments of a row are counted through all passes. -/
def segment (length n : Nat) : List Nat := List.range' (n % 4 * length) length

/-- The columns of the last three segments that are finished when segment number `n` is filled,
or of all of them if there are fewer. -/
def finished (length n : Nat) : List Nat :=
  (List.range' (n - 3) (min n 3)).flatMap (segment length)

/-- The columns that column number `index` of segment number `n` may refer to, oldest first: in
its own row the finished segments and what is filled of this one, without the column before; in
another row the finished segments, at the beginning of a segment without the newest column. -/
def window (length n index : Nat) (own : Bool) : List Nat :=
  if own then (finished length n ++ (segment length n).take index).dropLast
  else if index = 0 then (finished length n).dropLast
  else finished length n

/-- The column that a number below `2 ^ 32` picks from a list. -/
def pick (w : List Nat) (j₁ : Nat) : Nat :=
  let x := j₁ * j₁ / UInt32.size
  let y := w.length * x / UInt32.size
  w.getD (w.length - 1 - y) 0

section
variable (lanes length : Nat)

/-- The block for column number `index` of a segment.  From the second pass on the old block is
added. -/
def nextBlock (pass slice i : Nat) (B : Matrix) (index : Nat) : Square :=
  let columns := 4 * length
  let j := slice * length + index
  let before := B.block i ((j + columns - 1) % columns)
  let first := (before.register 0 0).low.toNat
  let j₁ := first % UInt32.size
  let j₂ := first / UInt32.size
  let l := if pass = 0 ∧ slice = 0 then i else j₂ % lanes
  let z := pick (window length (4 * pass + slice) index (l = i)) j₁
  let new := compress before (B.block l z)
  if pass = 0 then new else new ^^^ B.block i j

/-- Fills column number `index` of a segment. -/
def fillBlock (pass slice i : Nat) (B : Matrix) (index : Nat) : Matrix :=
  B.set i (slice * length + index) (nextBlock lanes length pass slice i B index)

/-- Fills a segment from left to right. -/
def fillSegment (pass slice : Nat) (B : Matrix) (i : Nat) : Matrix :=
  let first := if pass = 0 ∧ slice = 0 then 2 else 0
  (List.range' first (length - first)).foldl (fillBlock lanes length pass slice i) B

/-- Fills a slice, row by row. -/
def fillSlice (pass : Nat) (B : Matrix) (slice : Nat) : Matrix :=
  (List.range lanes).foldl (fillSegment lanes length pass slice) B

/-- One pass over the matrix. -/
def fillPass (B : Matrix) (pass : Nat) : Matrix :=
  (List.range 4).foldl (fillSlice lanes length pass) B

end

variable [HashSuite]

/-- `H_0`: the digest of the parameters and of the strings, each of them after its length.  Numbers
take four bytes; the version is 1.3, and the type of the hash is 0. -/
def initialHash (p : Params) (inputs : HashInputs) : Bytes :=
  let number (n : Nat) : Bytes := leBytes 4 n
  let string (s : Bytes) : Bytes := number s.length ++ s
  HashSuite.wide 64
    (number p.lanes.toNat ++ number p.tagLength.toNat ++ number p.memoryCost.toNat ++
      number p.passes.toNat ++ number 0x13 ++ number 0 ++ string inputs.password ++
      string inputs.salt ++ string inputs.secret ++ string inputs.associatedData)

/-- The matrix with its first two columns. -/
def start (h₀ : Bytes) : Matrix where
  block i j :=
    if j < 2 then Square.ofBytes (Digest.linked 1024 (h₀ ++ leBytes 4 j ++ leBytes 4 i))
    else Square.zero

/-- The filled matrix. -/
def fill (p : Params) (h₀ : Bytes) : Matrix :=
  let length := p.memoryCost.toNat / (4 * p.lanes.toNat)
  (List.range p.passes.toNat).foldl (fillPass p.lanes.toNat length) (start h₀)

/-- The tag: the sum of the last column, hashed. -/
def tag (p : Params) (inputs : HashInputs) : Bytes :=
  let length := p.memoryCost.toNat / (4 * p.lanes.toNat)
  let B := fill p (initialHash p inputs)
  let C := (List.range p.lanes.toNat).foldl (fun C i => C ^^^ B.block i (4 * length - 1))
    Square.zero
  Digest.linked p.tagLength.toNat C.toBytes

end MemoryHard.Argon2d
