import MemoryHard.Bytes
import MemoryHard.Digest.Round

/-!
# MemoryHard.Digest.Blake2b — the Blake2b hash without key

The words at work stand in a square of four rows.  A round mixes the four columns at once, then
the four diagonals, which are columns once the rows are turned.

* `Blake2b.digest` — the digest of a message in a width of at most 64 bytes;
* `Blake2b.length_digest` — it has that width.
-/

namespace MemoryHard.Digest.Blake2b

open MemoryHard.Bytes

/-! ## Rows of words -/

/-- Four words side by side. -/
structure Row where
  w : UInt64
  x : UInt64
  y : UInt64
  z : UInt64

namespace Row

/-- Word by word sum. -/
@[inline] def add (p q : Row) : Row := ⟨p.w + q.w, p.x + q.x, p.y + q.y, p.z + q.z⟩

/-- Word by word exclusive or. -/
@[inline] def xor (p q : Row) : Row := ⟨p.w ^^^ q.w, p.x ^^^ q.x, p.y ^^^ q.y, p.z ^^^ q.z⟩

/-- Each word turned right by `k` bits, for `0 < k < 64`. -/
@[inline] def rotateRight (p : Row) (k : UInt64) : Row :=
  ⟨rotateRight64 p.w k, rotateRight64 p.x k, rotateRight64 p.y k, rotateRight64 p.z k⟩

/-- The words moved by one place, the first to the end. -/
@[inline] def turn (p : Row) : Row := ⟨p.x, p.y, p.z, p.w⟩

/-- The words in order. -/
def toList (p : Row) : List UInt64 := [p.w, p.x, p.y, p.z]

end Row

/-- Sixteen words in four rows. -/
structure Square where
  a : Row
  b : Row
  c : Row
  d : Row

namespace Square

/-- Mixes the four columns, taking in two message words for each of them. -/
@[inline] def mix (s : Square) (p q : Row) : Square :=
  let a := (s.a.add s.b).add p
  let d := (s.d.xor a).rotateRight 32
  let c := s.c.add d
  let b := (s.b.xor c).rotateRight 24
  let a := (a.add b).add q
  let d := (d.xor a).rotateRight 16
  let c := c.add d
  let b := (b.xor c).rotateRight 63
  ⟨a, b, c, d⟩

/-- Turns the rows so that the diagonals become columns. -/
@[inline] def diagonals (s : Square) : Square :=
  ⟨s.a, s.b.turn, s.c.turn.turn, s.d.turn.turn.turn⟩

/-- Turns the rows back. -/
@[inline] def columns (s : Square) : Square :=
  ⟨s.a, s.b.turn.turn.turn, s.c.turn.turn, s.d.turn⟩

end Square

/-! ## Rounds -/

/-- The eight words that a message has been worked into. -/
structure State where
  low : Row
  high : Row

/-- The eight words a state starts from and every compression takes in again. -/
def iv : State :=
  ⟨⟨0x6a09e667f3bcc908, 0xbb67ae8584caa73b, 0x3c6ef372fe94f82b, 0xa54ff53a5f1d36f1⟩,
    ⟨0x510e527fade682d1, 0x9b05688c2b3e6c1f, 0x1f83d9abfb41bd6b, 0x5be0cd19137e2179⟩⟩

/-- The order in which the ten kinds of round take the words of a message block. -/
def schedule : Vector (Vector Nat 16) 10 :=
  #v[#v[0, 1, 2, 3, 4, 5, 6, 7, 8, 9, 10, 11, 12, 13, 14, 15],
     #v[14, 10, 4, 8, 9, 15, 13, 6, 1, 12, 0, 2, 11, 7, 5, 3],
     #v[11, 8, 12, 0, 5, 2, 15, 13, 10, 14, 3, 6, 7, 1, 9, 4],
     #v[7, 9, 3, 1, 13, 12, 11, 14, 2, 6, 5, 10, 4, 0, 15, 8],
     #v[9, 0, 5, 7, 2, 4, 10, 15, 14, 1, 11, 12, 6, 8, 3, 13],
     #v[2, 12, 6, 10, 0, 11, 8, 3, 4, 13, 7, 5, 15, 14, 1, 9],
     #v[12, 5, 1, 15, 14, 13, 4, 10, 0, 7, 6, 3, 9, 2, 8, 11],
     #v[13, 11, 7, 14, 12, 1, 3, 9, 5, 0, 15, 4, 8, 6, 2, 10],
     #v[6, 15, 14, 9, 11, 3, 0, 8, 12, 2, 13, 7, 1, 4, 10, 5],
     #v[10, 2, 8, 4, 7, 6, 1, 5, 15, 11, 9, 14, 3, 12, 13, 0]]

/-- The message words at four places; those that are missing are zero. -/
@[inline] def pick (m : Array UInt64) (q : Four Nat) : Row :=
  ⟨m.getD q.a 0, m.getD q.b 0, m.getD q.c 0, m.getD q.d 0⟩

/-- One round over a message block of sixteen words. -/
def round (m : Array UInt64) (o : Vector Nat 16) (s : Square) : Square :=
  let f := intake o
  let s := s.mix (pick m f.a) (pick m f.b)
  let s := s.diagonals.mix (pick m f.c) (pick m f.d)
  s.columns

/-- Takes one message block into the state.  `count` is the number of message bytes so far, this
block included, and `last` marks the final block. -/
def compress (h : State) (m : Array UInt64) (count : Nat) (last : Bool) : State :=
  let marks : Row := ⟨UInt64.ofNat count, UInt64.ofNat (count >>> 64), if last then ~~~0 else 0, 0⟩
  let s : Square := ⟨h.low, h.high, iv.low, iv.high.xor marks⟩
  let s := (List.range 12).foldl
    (fun s r => round m (schedule.get ⟨r % 10, Nat.mod_lt _ (by decide)⟩) s) s
  ⟨(h.low.xor s.a).xor s.c, (h.high.xor s.b).xor s.d⟩

/-! ## Messages -/

/-- The message block at the beginning of a message; a shorter one is filled up with zeros. -/
def blockOf (msg : Bytes) : Array UInt64 := (words64 16 msg).toArray

/-- Takes in a message block by block; at least one block is taken. -/
def absorb (h : State) (count : Nat) (msg : Bytes) : State :=
  match hr : msg.drop 128 with
  | [] => compress h (blockOf msg) (count + msg.length) true
  | x :: rest => absorb (compress h (blockOf msg) (count + 128) false) (count + 128) (x :: rest)
termination_by msg.length
decreasing_by
  have h := congrArg List.length hr
  simp only [List.length_drop, List.length_cons] at h
  simp only [List.length_cons]
  omega

/-- The state a message starts from: the width of the digest is part of it. -/
def start (width : Nat) : State :=
  { iv with low := iv.low.xor ⟨0x01010000 ^^^ UInt64.ofNat width, 0, 0, 0⟩ }

/-- The 64 bytes a final state stands for. -/
def State.toBytes (h : State) : Bytes := (h.low.toList ++ h.high.toList).flatMap le64

/-- The Blake2b digest of `msg` in `width` bytes, for widths up to 64. -/
def digest (width : Nat) (msg : Bytes) : Bytes := ((absorb (start width) 0 msg).toBytes).take width

theorem State.length_toBytes (h : State) : h.toBytes.length = 64 := by
  simp [State.toBytes, Row.toList]

theorem length_digest {width : Nat} (msg : Bytes) (hw : width ≤ 64) :
    (digest width msg).length = width := by
  simp [digest, State.length_toBytes, hw]

end MemoryHard.Digest.Blake2b
