import MemoryHard.Proofs.Argon2d.Matrix
import MemoryHard.Proofs.Geometry.Window

/-!
# MemoryHard.Proofs.Argon2d.Window — the window column by column

If the columns of a row are numbered through all passes, those that a block may refer to are a run
of consecutive numbers.  That run is the window of `Geometry.windowStart` and
`Geometry.windowSize`.

* `window_eq` — the list of columns as such a run;
* `pick_window` — the choice from the list is `Geometry.pick`.
-/

namespace MemoryHard.Argon2d

variable {g : Geometry} {p : Position} {length n index : Nat}

/-- `count` columns from number `start` on, numbered through all passes. -/
def columnsFrom (length start count : Nat) : List Nat :=
  (List.range' start count).map (· % (4 * length))

theorem length_columnsFrom (length start count : Nat) :
    (columnsFrom length start count).length = count := by
  rw [columnsFrom, List.length_map, List.length_range']

theorem columnsFrom_append (length start a b : Nat) :
    columnsFrom length start a ++ columnsFrom length (start + a) b =
      columnsFrom length start (a + b) := by
  rw [columnsFrom, columnsFrom, ← List.map_append, List.range'_append_1]
  rfl

theorem take_columnsFrom (start : Nat) {a b : Nat} (h : a ≤ b) :
    (columnsFrom length start b).take a = columnsFrom length start a := by
  rw [columnsFrom, ← List.map_take, List.take_range'_of_length_ge h]
  rfl

theorem dropLast_columnsFrom (length start count : Nat) :
    (columnsFrom length start count).dropLast = columnsFrom length start (count - 1) := by
  rw [List.dropLast_eq_take, length_columnsFrom, take_columnsFrom start (Nat.sub_le _ _)]

theorem getD_columnsFrom (start : Nat) {count i : Nat} (h : i < count) :
    (columnsFrom length start count).getD i 0 = (start + i) % (4 * length) := by
  have hi : i < (columnsFrom length start count).length := by rwa [length_columnsFrom]
  rw [List.getD_eq_getElem?_getD, List.getElem?_eq_getElem hi, Option.getD_some]
  simp [columnsFrom]

/-- The columns of a segment follow each other. -/
theorem segment_eq (length n : Nat) :
    segment length n = columnsFrom length (n * length) length := by
  refine List.ext_getElem (by simp [segment, columnsFrom]) ?_
  intro i hi _
  rw [segment, List.length_range'] at hi
  have hmod : n % 4 < 4 := Nat.mod_lt _ (by decide)
  have hlt : n % 4 * length + i < 4 * length :=
    calc n % 4 * length + i < n % 4 * length + length := by omega
      _ = (n % 4 + 1) * length := by rw [Nat.add_mul, Nat.one_mul]
      _ ≤ 4 * length := Nat.mul_le_mul_right _ hmod
  have hsplit : n * length + i = 4 * length * (n / 4) + (n % 4 * length + i) := by
    have hn : n * length = (4 * (n / 4) + n % 4) * length := by rw [Nat.div_add_mod]
    rw [hn, Nat.add_mul, Nat.mul_right_comm, Nat.add_assoc]
  simp only [segment, columnsFrom, List.getElem_range', List.getElem_map, Nat.one_mul]
  rw [hsplit, Nat.mul_add_mod, Nat.mod_eq_of_lt hlt]

/-- Segments that follow each other are a run of columns. -/
theorem flatMap_segment (length n count : Nat) :
    (List.range' n count).flatMap (segment length) =
      columnsFrom length (n * length) (count * length) := by
  induction count generalizing n with
  | zero => simp [columnsFrom]
  | succ count ih =>
    rw [List.range'_succ, List.flatMap_cons, ih, segment_eq, Nat.add_mul n 1, Nat.one_mul,
      columnsFrom_append, Nat.add_mul count 1, Nat.one_mul, Nat.add_comm length]

/-- The finished segments end where segment number `n` begins. -/
theorem finished_eq (length n : Nat) :
    finished length n = columnsFrom length ((n - 3) * length) (min n 3 * length) :=
  flatMap_segment length (n - 3) (min n 3)

/-- How many columns a window has, with `n` segments filled before. -/
def windowLength (length n index : Nat) (own : Bool) : Nat :=
  if own then min n 3 * length + index - 1
  else if index = 0 then min n 3 * length - 1
  else min n 3 * length

/-- A window is a run of columns. -/
theorem window_eq (h : index ≤ length) (own : Bool) :
    window length n index own =
      columnsFrom length ((n - 3) * length) (windowLength length n index own) := by
  unfold window windowLength
  have hend : (n - 3) * length + min n 3 * length = n * length := by
    rw [← Nat.add_mul]
    congr 1
    omega
  cases own with
  | true =>
    rw [if_pos rfl, if_pos rfl, segment_eq, take_columnsFrom _ h, finished_eq, ← hend,
      columnsFrom_append, dropLast_columnsFrom]
  | false =>
    rw [if_neg Bool.false_ne_true, if_neg Bool.false_ne_true, finished_eq, dropLast_columnsFrom]
    split_ifs <;> rfl

/-! ## Windows of a geometry -/

theorem windowLength_eq (hp : p.IsLegal g) {own : Bool}
    (hf : p.pass = 0 → p.slice = 0 → own = true) :
    windowLength g.segmentLength (4 * p.pass + p.slice) p.index own = g.windowSize p own := by
  have hslice : p.slice < 4 := hp.1
  unfold windowLength Geometry.windowSize Geometry.laneLength slices
  by_cases hpass : p.pass = 0
  · have hmin : min (4 * p.pass + p.slice) 3 = p.slice := by omega
    rw [hmin]
    by_cases hs : p.slice = 0
    · have hown := hf hpass hs
      simp [hpass, hs, hown]
    · simp [hpass, hs]
  · have hmin : min (4 * p.pass + p.slice) 3 = 3 := by omega
    have hthree : 4 * g.segmentLength - g.segmentLength = 3 * g.segmentLength := by omega
    simp [hmin, hpass, hthree]

/-- Numbered through all passes, a window begins at a column that stands at `windowStart`. -/
theorem mod_windowStart (hp : p.IsLegal g) (i : Nat) :
    ((4 * p.pass + p.slice - 3) * g.segmentLength + i) % (4 * g.segmentLength) =
      (g.windowStart p + i) % g.laneLength := by
  have hslice : p.slice < 4 := hp.1
  unfold Geometry.windowStart Geometry.laneLength slices
  by_cases hpass : p.pass = 0
  · have hzero : 4 * p.pass + p.slice - 3 = 0 := by omega
    simp [hpass, show p.slice - 3 = 0 by omega]
  · obtain ⟨r, hr⟩ := Nat.exists_eq_succ_of_ne_zero hpass
    by_cases hs : p.slice = 3
    · have hn : 4 * p.pass + p.slice - 3 = 4 * (r + 1) := by omega
      rw [hn, if_neg (by omega), Nat.zero_add, Nat.mul_right_comm, Nat.mul_add_mod]
    · have hn : 4 * p.pass + p.slice - 3 = 4 * r + (p.slice + 1) := by omega
      rw [hn, if_pos ⟨hpass, by omega⟩, Nat.add_mul, Nat.mul_right_comm, Nat.add_assoc,
        Nat.mul_add_mod]

/-- The choice from the list of columns is that of the geometry. -/
theorem pick_window (h2 : 2 ≤ g.segmentLength) (hp : p.IsLegal g) {own : Bool} {low : Nat}
    (hf : p.pass = 0 → p.slice = 0 → own = true) :
    pick (window g.segmentLength (4 * p.pass + p.slice) p.index own) low = g.pick p low own := by
  have hpos := Geometry.windowSize_pos h2 hp own
  have hplace : g.windowSize p own - 1 - Geometry.age (g.windowSize p own) low <
      g.windowSize p own := by omega
  rw [window_eq (Nat.le_of_lt hp.2.2.1), windowLength_eq hp hf]
  unfold pick
  dsimp only
  rw [length_columnsFrom]
  exact (getD_columnsFrom _ hplace).trans (mod_windowStart hp _)

end MemoryHard.Argon2d
