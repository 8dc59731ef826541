import MemoryHard.Proof.Race

/-!
# MemoryHard.Proofs.Proof.Chunks — no nonce is left out, and none is tried twice

The length of a chunk is rounded up, so the last workers may get less than the others, or nothing.

* `flatMap_nonceChunks` — one after the other the chunks are the nonces of the search;
* `mem_chunk_iff`, `bounds_of_mem_nonceChunks` — what this says of a single nonce or chunk;
* `nonceChunks_of_one`, `length_nonceChunks_eq_one_iff` — a lone worker gets all nonces, and no
  other does.
-/

namespace MemoryHard

/-- The nonces of a chunk. -/
def noncesOf (chunk : Nat × Nat) : List Nat := List.range' chunk.1 (chunk.2 - chunk.1)

theorem mem_noncesOf {chunk : Nat × Nat} {n : Nat} :
    n ∈ noncesOf chunk ↔ chunk.1 ≤ n ∧ n < chunk.2 := by
  unfold noncesOf
  rw [List.mem_range'_1]
  omega

theorem noncesOf_of_le {chunk : Nat × Nat} (h : chunk.2 ≤ chunk.1) : noncesOf chunk = [] := by
  unfold noncesOf
  rw [Nat.sub_eq_zero_of_le h, List.range'_zero]

theorem flatMap_filter_of_eq_nil {α β : Type} {f : α → List β} {keep : α → Bool} (xs : List α)
    (h : ∀ x, keep x = false → f x = []) : (xs.filter keep).flatMap f = xs.flatMap f := by
  induction xs with
  | nil => rfl
  | cons x xs ih =>
    cases hk : keep x with
    | true => rw [List.filter_cons_of_pos hk, List.flatMap_cons, List.flatMap_cons, ih]
    | false =>
      rw [List.filter_cons_of_neg (by simp [hk]), List.flatMap_cons, h x hk, List.nil_append, ih]

variable {jobs start stop : Nat}

theorem searchWorkers_pos {total : Nat} (jobs : Nat) (h : 0 < total) :
    0 < searchWorkers jobs total := by
  unfold searchWorkers
  omega

/-- Rounded up, the share of each worker is large enough. -/
theorem le_mul_share {workers : Nat} (total : Nat) (h : 0 < workers) :
    total ≤ workers * ((total + workers - 1) / workers) := by
  have hdiv := Nat.div_add_mod (total + workers - 1) workers
  have hmod := Nat.mod_lt (total + workers - 1) h
  omega

/-- The first `count` shares of `length` nonces each, cut off at `stop`, are consecutive. -/
theorem flatMap_shares (start stop length count : Nat) :
    (List.range count).flatMap (fun w =>
        noncesOf (start + w * length, min (start + w * length + length) stop)) =
      List.range' start (min (count * length) (stop - start)) := by
  induction count with
  | zero => simp
  | succ count ih =>
    rw [List.range_succ, List.flatMap_append, ih, List.flatMap_singleton, Nat.succ_mul]
    unfold noncesOf
    -- a share that begins after `stop` has nothing to add
    by_cases h : count * length ≤ stop - start
    · have hlen : min (count * length + length) (stop - start) = count * length +
          (min (start + count * length + length) stop - (start + count * length)) := by omega
      rw [hlen, ← List.range'_append, Nat.one_mul, Nat.min_eq_left h]
    · have hlen : min (start + count * length + length) stop - (start + count * length) = 0 := by
        omega
      dsimp only
      rw [hlen, List.range'_zero, List.append_nil, Nat.min_eq_right (by omega),
        Nat.min_eq_right (by omega)]

/-- One after the other the chunks are the nonces of the search. -/
theorem flatMap_nonceChunks (jobs start stop : Nat) :
    (nonceChunks jobs start stop).flatMap noncesOf = List.range' start (stop - start) := by
  unfold nonceChunks
  dsimp only
  rw [flatMap_filter_of_eq_nil _ fun c hc => noncesOf_of_le (by simpa using hc), List.flatMap_map,
    flatMap_shares]
  rcases Nat.eq_zero_or_pos (stop - start) with h | h
  · rw [h, Nat.min_zero]
  · rw [Nat.min_eq_right (le_mul_share _ (searchWorkers_pos jobs h))]

-- of four workers with five nonces the last one gets nothing
example : nonceChunks 4 7 12 = [(7, 9), (9, 11), (11, 12)] := by decide

/-- A nonce of the search is in some chunk, and in no chunk are other nonces. -/
theorem mem_chunk_iff {n : Nat} :
    (∃ chunk ∈ nonceChunks jobs start stop, chunk.1 ≤ n ∧ n < chunk.2) ↔
      start ≤ n ∧ n < stop := by
  have hmem : n ∈ (nonceChunks jobs start stop).flatMap noncesOf ↔ _ :=
    flatMap_nonceChunks jobs start stop ▸ List.mem_range'_1
  simp only [List.mem_flatMap, mem_noncesOf] at hmem
  rw [hmem]
  omega

/-- No chunk is empty, and all of them lie in the range of the search. -/
theorem bounds_of_mem_nonceChunks {chunk : Nat × Nat} (h : chunk ∈ nonceChunks jobs start stop) :
    start ≤ chunk.1 ∧ chunk.1 < chunk.2 ∧ chunk.2 ≤ stop := by
  have hlt : chunk.1 < chunk.2 := by simpa using (List.mem_filter.1 h).2
  have hfirst := mem_chunk_iff.1 ⟨chunk, h, Nat.le_refl _, hlt⟩
  have hlast := (mem_chunk_iff (n := chunk.2 - 1)).1 ⟨chunk, h, by omega, by omega⟩
  omega

theorem nonceChunks_of_one (hlt : start < stop) (h : searchWorkers jobs (stop - start) = 1) :
    nonceChunks jobs start stop = [(start, stop)] := by
  have hmin : min (start + (stop - start)) stop = stop := by omega
  unfold nonceChunks
  dsimp only
  rw [h]
  simp [hmin, hlt]

/-- Rounded up, the share of one of several workers is less than the whole. -/
theorem share_lt {workers total : Nat} (h : 1 < workers) (hle : workers ≤ total) :
    (total + workers - 1) / workers < total := by
  apply Nat.div_lt_of_lt_mul
  have htwo : 2 * total ≤ workers * total := Nat.mul_le_mul_right total h
  omega

theorem sub_le_share {chunk : Nat × Nat} (h : chunk ∈ nonceChunks jobs start stop) :
    chunk.2 - chunk.1 ≤ (stop - start + searchWorkers jobs (stop - start) - 1) /
      searchWorkers jobs (stop - start) := by
  unfold nonceChunks at h
  obtain ⟨w, -, rfl⟩ := List.mem_map.1 (List.mem_filter.1 h).1
  exact Nat.sub_le_iff_le_add'.2 (Nat.min_le_left _ _)

/-- There is one chunk just if there is one worker. -/
theorem length_nonceChunks_eq_one_iff (hlt : start < stop) :
    (nonceChunks jobs start stop).length = 1 ↔ searchWorkers jobs (stop - start) = 1 := by
  constructor
  · intro h
    obtain ⟨chunk, hchunk⟩ := List.length_eq_one_iff.1 h
    have hall := congrArg List.length (flatMap_nonceChunks jobs start stop)
    rw [hchunk, List.flatMap_singleton, noncesOf, List.length_range', List.length_range'] at hall
    have hshare := sub_le_share (hchunk ▸ List.mem_singleton_self chunk :
      chunk ∈ nonceChunks jobs start stop)
    have hpos := searchWorkers_pos jobs (show 0 < stop - start by omega)
    rcases Nat.lt_or_ge 1 (searchWorkers jobs (stop - start)) with hmore | hone
    · -- with two workers or more, no chunk is large enough for all nonces
      have hless := share_lt hmore (Nat.min_le_right _ (stop - start))
      omega
    · exact Nat.le_antisymm hone hpos
  · intro h
    rw [nonceChunks_of_one hlt h]
    rfl

theorem roomFailure_length_nonceChunks (hlt : start < stop) :
    roomFailure (nonceChunks jobs start stop).length =
      roomFailure (searchWorkers jobs (stop - start)) := by
  unfold roomFailure
  simp only [length_nonceChunks_eq_one_iff hlt]

end MemoryHard
