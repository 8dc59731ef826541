import MemoryHard.Digest.Links

/-!
# MemoryHard.Proofs.Digest.Widths — stretching asks for no digest out of range

However long the output, all links of the chain are 64 bytes wide, and what is left for the last
digest is between 1 and 64 bytes.

* `hash?_eq_some` — a digest whose width is in range;
* `chain?_eq_some`, `stretch?_eq_some` — the chain behind an output, and the output.
-/

namespace MemoryHard.Digest

open MemoryHard.Bytes HashSuite

variable [HashSuite]

theorem hash?_eq_some {width : Nat} (h1 : 1 ≤ width) (h2 : width ≤ maxWidth) (msg : Bytes) :
    hash? width msg = some (wide width msg) := if_pos ⟨h1, h2⟩

/-- More than 32 bytes are left after each link, so the last digest is never empty. -/
theorem chain?_eq_some {remaining : Nat} (h : 1 ≤ remaining) (v : Bytes) :
    chain? remaining v = some (chain remaining v) := by
  induction remaining using Nat.strongRecOn generalizing v with
  | ind n ih =>
    rw [chain?, chain]
    by_cases hlast : n ≤ 64
    · rw [if_pos hlast, if_pos hlast]
      exact hash?_eq_some h hlast v
    · rw [if_neg hlast, if_neg hlast, hash?_eq_some (by decide) (by decide)]
      simp only [Option.bind_eq_bind, Option.bind_some]
      rw [ih (n - 32) (by omega) (by omega)]
      rfl

theorem stretch?_eq_some {length : Nat} (h : 1 ≤ length) (input : Bytes) :
    stretch? length input = some (stretch length input) := by
  unfold stretch? stretch
  dsimp only
  by_cases hshort : length ≤ 64
  · rw [if_pos hshort, if_pos hshort]
    exact hash?_eq_some h hshort _
  · rw [if_neg hshort, if_neg hshort, hash?_eq_some (by decide) (by decide)]
    simp only [Option.bind_eq_bind, Option.bind_some]
    rw [chain?_eq_some (by omega)]
    rfl

end MemoryHard.Digest
