import MemoryHard.Geometry.Reference

/-!
# MemoryHard.Geometry.Checked — the index computations on 64-bit words

Here every step of an index computation has to stay within 64-bit words: a sum or a product that
leaves them, a difference below zero and a division by zero have no value.  Where these
computations have a value it is that of the unbounded ones.

* `Word.add?`, `sub?`, `mul?`, `div?`, `mod?` — the steps;
* `Geometry.locate?`, `Position.previous?`, `Geometry.reference?` and the others — the
  computations.
-/

namespace MemoryHard

namespace Word

/-- A number, if it fits into a word. -/
def fit? (n : Nat) : Option Nat := if n < UInt64.size then some n else none

/-- A sum that fits. -/
def add? (m n : Nat) : Option Nat := fit? (m + n)

/-- A difference that is not negative. -/
def sub? (m n : Nat) : Option Nat := if n ≤ m then some (m - n) else none

/-- A product that fits. -/
def mul? (m n : Nat) : Option Nat := fit? (m * n)

/-- A quotient, unless by zero. -/
def div? (m n : Nat) : Option Nat := if n = 0 then none else some (m / n)

/-- A remainder, unless by zero. -/
def mod? (m n : Nat) : Option Nat := if n = 0 then none else some (m % n)

end Word

open Word

namespace Params

/-- Blocks of a segment. -/
def segmentLength? (p : Params) : Option Nat := do
  div? p.memoryCost.toNat (← mul? slices p.lanes.toNat)

/-- Blocks of a lane. -/
def laneLength? (p : Params) : Option Nat := do
  mul? (← p.segmentLength?) slices

/-- Blocks of the whole memory. -/
def blockCount? (p : Params) : Option Nat := do
  mul? (← p.laneLength?) p.lanes.toNat

/-- The smallest memory for the lanes. -/
def memoryFloor? (p : Params) : Option Nat := mul? (2 * slices) p.lanes.toNat

/-- The shape of the memory that the parameters ask for. -/
def wordGeometry (p : Params) : Option Geometry := do
  let _ ← p.laneLength?
  return ⟨p.lanes.toNat, ← p.segmentLength?, p.passes.toNat⟩

end Params

namespace Geometry

/-- Blocks of the memory. -/
def blockCount? (g : Geometry) : Option Nat := mul? g.lanes g.laneLength

/-- The index of the first block of a segment. -/
def segmentStart? (g : Geometry) (lane slice : Nat) : Option Nat := do
  add? (← mul? lane g.laneLength) (← mul? slice g.segmentLength)

/-- The position at which a block is filled in the first pass. -/
def locate? (g : Geometry) (block : Nat) : Option Position := do
  let lane ← div? block g.laneLength
  let inLane ← mod? block g.laneLength
  return ⟨0, lane, ← div? inLane g.segmentLength, ← mod? inLane g.segmentLength⟩

/-- Whether a block is one of the two of its lane that nothing comes before. -/
def isSeed? (g : Geometry) (block : Nat) : Option Bool := do
  return (← mod? block g.laneLength) < 2

end Geometry

namespace Position

/-- The index of the block that is filled. -/
def absolute? (g : Geometry) (p : Position) : Option Nat := do
  add? (← g.segmentStart? p.lane p.slice) p.index

/-- The block a position chains from. -/
def previous? (g : Geometry) (p : Position) : Option Nat := do
  let current ← p.absolute? g
  if (← mod? current g.laneLength) = 0 then sub? (← add? current g.laneLength) 1
  else sub? current 1

end Position

namespace Geometry

/-- How many blocks of a lane a position may refer to. -/
def windowSize? (g : Geometry) (p : Position) (ownLane : Bool) : Option Nat := do
  if p.pass = 0 ∧ p.slice = 0 then sub? p.index 1
  else
    let completed ←
      if p.pass ≠ 0 then sub? g.laneLength g.segmentLength
      else mul? p.slice g.segmentLength
    if ownLane then sub? (← add? completed p.index) 1
    else if p.index = 0 then sub? completed 1
    else return completed

/-- Where the window begins. -/
def windowStart? (g : Geometry) (p : Position) : Option Nat := do
  if p.pass ≠ 0 ∧ p.slice ≠ slices - 1 then mul? (← add? p.slice 1) g.segmentLength
  else return 0

/-- The place in its lane of the block that the low half of a word picks. -/
def pick? (g : Geometry) (p : Position) (low : Nat) (ownLane : Bool) : Option Nat := do
  let size ← g.windowSize? p ownLane
  let square ← mul? low low
  let newer ← mul? size (square / UInt32.size)
  let place ← sub? (← sub? size 1) (newer / UInt32.size)
  mod? (← add? (← g.windowStart? p) place) g.laneLength

/-- The lane that a word picks. -/
def referenceLane? (g : Geometry) (p : Position) (word : UInt64) : Option Nat :=
  if p.pass = 0 ∧ p.slice = 0 then some p.lane else mod? (word.toNat / UInt32.size) g.lanes

/-- The index of the block that a position refers to. -/
def reference? (g : Geometry) (p : Position) (word : UInt64) : Option Nat := do
  let lane ← g.referenceLane? p word
  let place ← g.pick? p (word.toNat % UInt32.size) (lane = p.lane)
  add? (← mul? lane g.laneLength) place

end Geometry

end MemoryHard
