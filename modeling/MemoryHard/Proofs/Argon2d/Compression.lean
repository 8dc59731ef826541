import MemoryHard.Bytes

/-!
# MemoryHard.Proofs.Argon2d.Compression — the compression function of RFC 9106

A block is a square of eight rows of eight registers, and a register is two words.  Two blocks are
compressed by adding them up, permuting the registers of each row and then those of each column, and
adding the sum once more.  Everything here is in the terms of the RFC.

* `mixWords`, `permuteRegisters`, `compress` — `GB`, `P` and `G` of the RFC;
* `Square.ofBytes`, `Square.toBytes` — a block as 1024 bytes.
-/

namespace MemoryHard.Argon2d

open MemoryHard.Bytes

/-- 64 bits. -/
abbrev Word := BitVec 64

/-! ## Words -/

/-- The low half of a word. -/
def trunc (a : Word) : Word := (a.setWidth 32).setWidth 64

/-- `GB`: four words are mixed. -/
def mixWords (a b c d : Word) : Word × Word × Word × Word :=
  let a := a + b + 2 * trunc a * trunc b
  let d := (d ^^^ a).rotateRight 32
  let c := c + d + 2 * trunc c * trunc d
  let b := (b ^^^ c).rotateRight 24
  let a := a + b + 2 * trunc a * trunc b
  let d := (d ^^^ a).rotateRight 16
  let c := c + d + 2 * trunc c * trunc d
  let b := (b ^^^ c).rotateRight 63
  (a, b, c, d)

/-- Four of sixteen words are mixed. -/
def mixAt (v : Fin 16 → Word) (a b c d : Nat) (k : Fin 16) : Word :=
  let word (n : Nat) : Word := v ⟨n % 16, Nat.mod_lt n (by decide)⟩
  let (va, vb, vc, vd) := mixWords (word a) (word b) (word c) (word d)
  if k.val = a then va else if k.val = b then vb else if k.val = c then vc
  else if k.val = d then vd
  else v k

/-! ## Registers -/

/-- Sixteen bytes, or two words of which the low one comes first. -/
structure Register where
  low : Word
  high : Word

/-- The words of eight registers. -/
def wordsOf (s : Fin 8 → Register) (k : Fin 16) : Word :=
  let register := s ⟨k / 2, by omega⟩
  if k.val % 2 = 0 then register.low else register.high

/-- The number of the low word of a register. -/
def lowPlace (i : Fin 8) : Fin 16 := ⟨2 * i, by omega⟩

/-- The number of its high word. -/
def highPlace (i : Fin 8) : Fin 16 := ⟨2 * i + 1, by omega⟩

/-- The registers that sixteen words make. -/
def registersOf (v : Fin 16 → Word) (i : Fin 8) : Register := ⟨v (lowPlace i), v (highPlace i)⟩

/-- `P`: the words of eight registers stand in a square of four rows; its columns are mixed, and
then its diagonals. -/
def permuteRegisters (s : Fin 8 → Register) : Fin 8 → Register :=
  let v := wordsOf s
  let v := mixAt v 0 4 8 12
  let v := mixAt v 1 5 9 13
  let v := mixAt v 2 6 10 14
  let v := mixAt v 3 7 11 15
  let v := mixAt v 0 5 10 15
  let v := mixAt v 1 6 11 12
  let v := mixAt v 2 7 8 13
  let v := mixAt v 3 4 9 14
  registersOf v

/-! ## Blocks -/

/-- The registers of a block by row and column. -/
structure Square where
  register : Fin 8 → Fin 8 → Register

namespace Square

/-- A block of zeros. -/
def zero : Square := ⟨fun _ _ => ⟨0, 0⟩⟩

/-- Exclusive or. -/
def xor (x y : Square) : Square where
  register i j :=
    let r := x.register i j
    let s := y.register i j
    ⟨r.low ^^^ s.low, r.high ^^^ s.high⟩

instance : XorOp Square := ⟨xor⟩

/-- The block with the given bytes, row by row, each word in little-endian order. -/
def ofBytes (b : Bytes) : Square where
  register i j :=
    let word (k : Nat) : Word := BitVec.ofNat 64 (leNat ((b.drop (8 * k)).take 8))
    ⟨word (16 * i + 2 * j), word (16 * i + 2 * j + 1)⟩

/-- The bytes of a block. -/
def toBytes (x : Square) : Bytes :=
  (List.finRange 8).flatMap fun i =>
    (List.finRange 8).flatMap fun j =>
      let r := x.register i j
      leBytes 8 r.low.toNat ++ leBytes 8 r.high.toNat

end Square

/-- `G`: two blocks are compressed. -/
def compress (x y : Square) : Square :=
  let r := x ^^^ y
  let q : Square := ⟨fun i => permuteRegisters (r.register i)⟩
  let z : Square := ⟨fun i j => permuteRegisters (fun k => q.register k j) i⟩
  z ^^^ r

end MemoryHard.Argon2d
