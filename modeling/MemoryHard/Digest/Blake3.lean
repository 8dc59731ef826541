import MemoryHard.Bytes
import MemoryHard.Digest.Round

/-!
# MemoryHard.Digest.Blake3 — the Blake3 hash without key

A message is cut into chunks of 1024 bytes, which are the leaves of a binary tree whose left
subtrees are full.  Each node ends in one compression that has not been run yet (`Pending`): run
as an inner node it gives the eight words handed to the parent, run as the root it gives the
digest.
-/

namespace MemoryHard.Digest.Blake3

open MemoryHard.Bytes

/-! ## Rows of words -/

/-- Four words side by side. -/
structure Row where
  w : UInt32
  x : UInt32
  y : UInt32
  z : UInt32

namespace Row

/-- Word by word sum. -/
@[inline] def add (p q : Row) : Row := ⟨p.w + q.w, p.x + q.x, p.y + q.y, p.z + q.z⟩

/-- Word by word exclusive or. -/
@[inline] def xor (p q : Row) : Row := ⟨p.w ^^^ q.w, p.x ^^^ q.x, p.y ^^^ q.y, p.z ^^^ q.z⟩

/-- Each word turned right by `k` bits, for `0 < k < 32`. -/
@[inline] def rotateRight (p : Row) (k : UInt32) : Row :=
  ⟨rotateRight32 p.w k, rotateRight32 p.x k, rotateRight32 p.y k, rotateRight32 p.z k⟩

/-- The words in order. -/
def toList (p : Row) : List UInt32 := [p.w, p.x, p.y, p.z]

end Row

/-- Sixteen words in four rows. -/
structure Square where
  a : Row
  b : Row
  c : Row
  d : Row

namespace Square

/-- Mixes the four columns, taking in two message words for each of them. -/
@[inline] def mix (s : Square) (p q : Row) : Square :=
  let a := (s.a.add s.b).add p
  let d := (s.d.xor a).rotateRight 16
  let c := s.c.add d
  let b := (s.b.xor c).rotateRight 12
  let a := (a.add b).add q
  let d := (d.xor a).rotateRight 8
  let c := c.add d
  let b := (b.xor c).rotateRight 7
  ⟨a, b, c, d⟩

/-- Turns the rows so that the diagonals become columns. -/
@[inline] def diagonals (s : Square) : Square :=
  ⟨s.a, ⟨s.b.x, s.b.y, s.b.z, s.b.w⟩, ⟨s.c.y, s.c.z, s.c.w, s.c.x⟩, ⟨s.d.z, s.d.w, s.d.x, s.d.y⟩⟩

/-- Turns the rows back. -/
@[inline] def columns (s : Square) : Square :=
  ⟨s.a, ⟨s.b.z, s.b.w, s.b.x, s.b.y⟩, ⟨s.c.y, s.c.z, s.c.w, s.c.x⟩, ⟨s.d.x, s.d.y, s.d.z, s.d.w⟩⟩

end Square

/-! ## Rounds -/

/-- The eight words that a node hands on. -/
structure State where
  low : Row
  high : Row

/-- The words in order. -/
def State.toList (h : State) : List UInt32 := h.low.toList ++ h.high.toList

/-- The eight words a chunk and a parent node start from. -/
def iv : State :=
  ⟨⟨0x6a09e667, 0xbb67ae85, 0x3c6ef372, 0xa54ff53a⟩,
    ⟨0x510e527f, 0x9b05688c, 0x1f83d9ab, 0x5be0cd19⟩⟩

/-- Where each word of the message block comes from in the next round. -/
def schedule : Vector Nat 16 := #v[2, 6, 3, 10, 7, 0, 4, 13, 1, 11, 12, 5, 9, 14, 15, 8]

/-- The order in which a round takes the words of the message block. -/
def order : (round : Nat) → Vector Nat 16
  | 0 => Vector.range 16
  | round + 1 =>
    let last := order round
    schedule.map (last.getD · 0)

/-- The orders of the seven rounds. -/
def orders : List (Vector Nat 16) := (List.range 7).map order

/-- The message words at four places; those that are missing are zero. -/
@[inline] def pick (m : Array UInt32) (q : Four Nat) : Row :=
  ⟨m.getD q.a 0, m.getD q.b 0, m.getD q.c 0, m.getD q.d 0⟩

/-- One round over a message block of sixteen words. -/
def round (m : Array UInt32) (o : Vector Nat 16) (s : Square) : Square :=
  let f := intake o
  let s := s.mix (pick m f.a) (pick m f.b)
  let s := s.diagonals.mix (pick m f.c) (pick m f.d)
  s.columns

/-! ## Nodes -/

/-- The mark of the first block of a chunk. -/
def chunkStart : UInt32 := 1

/-- The mark of the last block of a chunk. -/
def chunkEnd : UInt32 := 2

/-- The mark of a parent node. -/
def parentNode : UInt32 := 4

/-- The mark of the root of the tree. -/
def rootNode : UInt32 := 8

/-- The block of 64 bytes at the beginning of a message; a shorter one is filled up with zeros. -/
def blockOf (msg : Bytes) : Array UInt32 := (words32 16 msg).toArray

/-- A compression that has not been run yet. -/
structure Pending where
  chain : State
  block : Array UInt32
  /-- The number of the chunk; zero for parents. -/
  counter : Nat
  /-- How many bytes of the block count. -/
  length : Nat
  flags : UInt32

/-- Runs the compression with the marks `flags`. -/
def Pending.run (p : Pending) (flags : UInt32) : State :=
  let marks : Row :=
    ⟨UInt32.ofNat p.counter, UInt32.ofNat (p.counter >>> 32), UInt32.ofNat p.length, flags⟩
  let s : Square := ⟨p.chain.low, p.chain.high, iv.low, marks⟩
  let s := orders.foldl (fun s o => round p.block o s) s
  ⟨s.a.xor s.c, s.b.xor s.d⟩

/-- The words an inner node hands to its parent. -/
def Pending.inner (p : Pending) : State := p.run p.flags

/-- The digest of a message whose tree has this root. -/
def Pending.root (p : Pending) : FixedBytes 32 where
  toList := (p.run (p.flags ||| rootNode)).toList.flatMap le32
  length_eq := by simp [State.toList, Row.toList]

/-- A chunk from the block at hand on; the blocks before the last are run. -/
def chunk (chain : State) (counter : Nat) (flags : UInt32) (data : Bytes) : Pending :=
  match _hr : data.drop 64 with
  | [] => ⟨chain, blockOf data, counter, data.length, flags ||| chunkEnd⟩
  | x :: rest =>
    chunk (Pending.inner ⟨chain, blockOf data, counter, 64, flags⟩) counter 0 (x :: rest)
termination_by data.length
decreasing_by
  have h := congrArg List.length _hr
  simp only [List.length_drop, List.length_cons] at h
  simp only [List.length_cons]
  omega

/-- The parent of two nodes. -/
def parent (left right : Pending) : Pending :=
  ⟨iv, (left.inner.toList ++ right.inner.toList).toArray, 0, 64, parentNode⟩

/-- How many bytes of a message of `n > 1024` bytes go to the left subtree: as many full chunks
as the largest power of two that leaves something for the right one. -/
def leftBytes (n : Nat) : Nat := 1024 <<< ((n - 1) / 1024).log2

theorem leftBytes_pos (n : Nat) : 0 < leftBytes n := by
  rw [leftBytes, Nat.shiftLeft_eq]
  exact Nat.mul_pos (by decide) (Nat.two_pow_pos _)

theorem leftBytes_lt {n : Nat} (h : 1024 < n) : leftBytes n < n := by
  have hq : (n - 1) / 1024 ≠ 0 := by omega
  have := Nat.log2_self_le hq
  rw [leftBytes, Nat.shiftLeft_eq]
  omega

/-- The tree over a message whose first chunk has the number `counter`. -/
def tree (counter : Nat) (data : Bytes) : Pending :=
  if h : data.length ≤ 1024 then
    chunk iv counter chunkStart data
  else
    let k := leftBytes data.length
    parent (tree counter (data.take k)) (tree (counter + k / 1024) (data.drop k))
termination_by data.length
decreasing_by
  · have := leftBytes_lt (Nat.lt_of_not_le h)
    simp only [List.length_take]
    omega
  · have := leftBytes_pos data.length
    simp only [List.length_drop]
    omega

/-- The Blake3 digest of `msg`. -/
def digest (msg : Bytes) : FixedBytes 32 := (tree 0 msg).root

end MemoryHard.Digest.Blake3
