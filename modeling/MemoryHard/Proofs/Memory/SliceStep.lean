import MemoryHard.Memory.InPlace
import MemoryHard.Proofs.Memory.Contents
import MemoryHard.Proofs.Memory.Jobs

/-!
# MemoryHard.Proofs.Memory.SliceStep — what a slice does to a memory

However the segments of a slice are computed, what they leave behind is described by equations:
every block derived in the slice follows from blocks that stand in the memory afterwards, and all
other blocks are kept.  There is one memory only that satisfies them.

* `Memory.blockFor` — the block derived at a position from what a memory holds;
* `Memory.SliceStep` — the equations for one slice;
* `SliceStep.unique` — they have one solution.
-/

namespace MemoryHard

namespace Memory

/-- The block derived at a position from what a memory holds; `old` is added in. -/
def blockFor (m : Memory) (p : Position) (old : Option Block) : Block :=
  let previous := m.read (p.previous m.geometry)
  Block.derive previous (m.read (m.geometry.reference p previous.firstWord)) old
    (m.binding (p.absolute m.geometry))

/-- What is added in at a position: the old block, from the second pass on. -/
def oldFor (m : Memory) (p : Position) : Option Block :=
  if 0 < p.pass then some (m.read (p.absolute m.geometry)) else none

theorem overwrite_eq (m : Memory) (p : Position) :
    m.overwrite p = m.write (p.absolute m.geometry) (m.blockFor p (m.oldFor p)) := rfl

/-- A block depends on complete blocks only. -/
theorem blockFor_congr {m m' : Memory} {p : Position} (hg : m.geometry.IsRegular)
    (hp : p.IsLegal m.geometry) (hgeo : m'.geometry = m.geometry) (hjob : m'.job = m.job)
    (h : ∀ i < m.geometry.blockCount, m.geometry.IsCompleteAt p i → m'.read i = m.read i)
    (old : Option Block) : m'.blockFor p old = m.blockFor p old := by
  have hprev := h _ (Geometry.previous_lt hp.isWithin) (Geometry.isComplete_previous hp)
  have href := h _ (Geometry.reference_lt hg hp (m.read (p.previous m.geometry)).firstWord)
    (Geometry.isComplete_reference hg hp _)
  unfold blockFor
  dsimp only
  rw [hgeo, hprev, href, binding_congr hjob]

/-- `m'` is what slice number `k` makes of `m`. -/
structure SliceStep (m : Memory) (k : Nat) (m' : Memory) : Prop where
  geometry_eq : m'.geometry = m.geometry
  job_eq : m'.job = m.job
  /-- The blocks of the slice follow from what the memory holds afterwards. -/
  read_derived : ∀ p, m.geometry.Fills k p →
    m'.read (p.absolute m.geometry) = m'.blockFor p (m.oldFor p)
  /-- All other blocks are kept. -/
  read_kept : ∀ i < m.geometry.blockCount,
    (∀ p, m.geometry.Fills k p → p.absolute m.geometry ≠ i) → m'.read i = m.read i

namespace SliceStep

variable {m m₁ m₂ : Memory} {k : Nat}

/-- A slice leaves one memory behind. -/
theorem unique (hg : m.geometry.IsRegular) (h₁ : m.SliceStep k m₁) (h₂ : m.SliceStep k m₂) :
    m₁ = m₂ := by
  have hgeo : m₁.geometry = m₂.geometry := h₁.geometry_eq.trans h₂.geometry_eq.symm
  have hjob : m₁.job = m₂.job := h₁.job_eq.trans h₂.job_eq.symm
  have hg2 : m₂.geometry.IsRegular := h₂.geometry_eq ▸ hg
  -- along the segments: of the slice, only earlier blocks of the own segment are complete
  have hread (n : Nat) : ∀ i < m.geometry.blockCount,
      (∀ p, m.geometry.Fills k p → p.absolute m.geometry = i → p.index < n) →
      m₁.read i = m₂.read i := by
    induction n using Nat.strongRecOn with
    | ind n ih =>
      intro i hi hn
      by_cases hp : ∃ p, m.geometry.Fills k p ∧ p.absolute m.geometry = i
      · obtain ⟨p, hp, rfl⟩ := hp
        rw [h₁.read_derived p hp, h₂.read_derived p hp]
        refine blockFor_congr hg2 (h₂.geometry_eq ▸ hp.isLegal) hgeo hjob (fun j hj hc => ?_) _
        rw [h₂.geometry_eq] at hj hc
        refine ih p.index (hn p hp rfl) j hj ?_
        intro q hq hqj
        exact ((hp.isCompleteAt_iff hq).1 (hqj ▸ hc)).2
      · have hkept : ∀ p, m.geometry.Fills k p → p.absolute m.geometry ≠ i :=
          fun p hf he => hp ⟨p, hf, he⟩
        rw [h₁.read_kept i hi hkept, h₂.read_kept i hi hkept]
  apply ext_read hgeo hjob
  intro i hi
  rw [h₁.geometry_eq] at hi
  exact hread m.geometry.segmentLength i hi fun p hp _ => hp.isWithin.2.2

end SliceStep

end Memory

end MemoryHard
