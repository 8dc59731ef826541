import MemoryHard.Challenge
import MemoryHard.Machine
import MemoryHard.Params.Validity
import MemoryHard.Prehash

/-!
# MemoryHard.Memory — the blocks of a computation

A memory has as many blocks as its geometry says, lane after lane.  If it belongs to a job, the
words of the job are bound into every block that is derived.

* `Memory.zeroed` — a memory of zeros for checked parameters, where there is room;
* `Memory.read`, `get?`, `write`, `writeFrom` — single blocks and runs of them, with
  `read_write` for what is read after a write;
* `Memory.writeSeeds` — the first two blocks of every lane;
* `Memory.tag`, `Memory.tag?` — the tag drawn from the last blocks of the lanes.
-/

namespace MemoryHard

/-- The blocks of a computation. -/
structure Memory where
  geometry : Geometry
  /-- The words of the job, if the memory belongs to one. -/
  job : Option JobWords
  /-- The blocks, lane after lane. -/
  blocks : Array Block
  size_eq : blocks.size = geometry.blockCount

namespace Memory

/-- A memory of zeros. -/
def ofGeometry (g : Geometry) (job : Option JobWords) : Memory :=
  ⟨g, job, Array.replicate g.blockCount Block.zero, by simp⟩

/-- A memory of zeros, if the parameters describe one and there is room for it. -/
def zeroed (p : Params) (job : Option JobWords) (refusals : Refusals := {}) :
    Except Failure Memory :=
  match p.validate with
  | .error failure => .error failure
  | .ok _ =>
    if refusals.blocks then
      .error (.allocation "block store" (p.geometry.blockCount * Block.byteLength))
    else .ok (ofGeometry p.geometry job)

/-- The number of blocks. -/
def size (m : Memory) : Nat := m.blocks.size

/-- Whether there are no blocks. -/
def isEmpty (m : Memory) : Bool := m.size = 0

/-- The block at an index, if there is one. -/
def get? (m : Memory) (i : Nat) : Option Block := m.blocks[i]?

/-- The block at an index; outside the memory all blocks are zero. -/
def read (m : Memory) (i : Nat) : Block := m.blocks.getD i Block.zero

/-- Writes a block; outside the memory nothing is written. -/
def write (m : Memory) (i : Nat) (b : Block) : Memory :=
  { m with
    blocks := m.blocks.setIfInBounds i b
    size_eq := by rw [Array.size_setIfInBounds, m.size_eq] }

/-- Writes a run of blocks from an index on. -/
def writeFrom (m : Memory) (start : Nat) : List Block → Memory
  | [] => m
  | b :: rest => (m.write start b).writeFrom (start + 1) rest

@[simp] theorem geometry_write (m : Memory) (i : Nat) (b : Block) :
    (m.write i b).geometry = m.geometry := rfl

@[simp] theorem job_write (m : Memory) (i : Nat) (b : Block) : (m.write i b).job = m.job := rfl

theorem read_write (m : Memory) (i j : Nat) (b : Block) :
    (m.write i b).read j = if i = j ∧ i < m.size then b else m.read j := by
  simp only [read, write, size, Array.getD_eq_getD_getElem?, Array.getElem?_setIfInBounds]
  by_cases h : i = j
  · by_cases hi : i < m.blocks.size
    · simp [h, h ▸ hi]
    · have hj : ¬j < m.blocks.size := h ▸ hi
      simp [h, hj]
  · simp [h]

theorem geometry_writeFrom (m : Memory) (start : Nat) (bs : List Block) :
    (m.writeFrom start bs).geometry = m.geometry := by
  induction bs generalizing m start with
  | nil => rfl
  | cons b bs ih => rw [writeFrom, ih, geometry_write]

theorem job_writeFrom (m : Memory) (start : Nat) (bs : List Block) :
    (m.writeFrom start bs).job = m.job := by
  induction bs generalizing m start with
  | nil => rfl
  | cons b bs ih => rw [writeFrom, ih, job_write]

theorem get?_eq_some_read {m : Memory} {i : Nat} (h : i < m.size) : m.get? i = some (m.read i) := by
  simp only [get?, read, size] at *
  simp [h]

/-- What binds the block at an index. -/
def binding (m : Memory) (i : Nat) : Option Binding :=
  m.job.map fun job => ⟨job, UInt64.ofNat i⟩

/-- The tag of `length` bytes: the last blocks of all lanes, added up and stretched. -/
def tag [HashSuite] (m : Memory) (length : Nat) : Bytes :=
  let last (lane : Nat) := m.read (lane * m.geometry.laneLength + m.geometry.laneLength - 1)
  let sum :=
    (List.range' 1 (m.geometry.lanes - 1)).foldl (fun sum lane => sum ^^^ last lane) (last 0)
  Digest.stretch length sum.toBytes

/-- The tag of `length` bytes, if there is room for so many. -/
def tag? [HashSuite] (m : Memory) (length : Nat) : Option Bytes :=
  if Bytes.hasRoom length then some (m.tag length) else none

/-- Writes the two seeds of every lane. -/
def writeSeeds [HashSuite] (m : Memory) (prehash : Bytes) : Memory :=
  (List.range m.geometry.lanes).foldl
    (fun m lane =>
      m.writeFrom (lane * m.geometry.laneLength)
        [seedBlock prehash lane 0, seedBlock prehash lane 1])
    m

end Memory

end MemoryHard
