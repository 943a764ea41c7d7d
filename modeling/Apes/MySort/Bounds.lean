import Apes.MySort.Syscall

/-!
# Which calls of `my_sort` stay inside their arrays

`merge` keeps the merged values in a `temp` array of 256 elements on the stack,
and the two kernel buffers have the size that `w`-bit arithmetic computes. The
entry check bounds neither. Only a `buffer_size` of exactly 256 fits `temp`, and
only sizes whose byte count does not wrap fit the kernel buffers.
-/

namespace Apes.MySort

open Apes

variable {w : ℕ} {alloc : Allocator} {fuel : ℕ} {W : World} {c : Call w} {e : Answers}

variable (alloc W) in
/-- Every accepted call makes a merge that reads `temp[m]` and writes `a[m]` for
    the last index `m` of the array, or of its left half where `i+j` wraps. -/
theorem exists_last_access (h : Accepted c e) :
    ∃ fuel m, (m = c.size - 1 ∨ m = (c.size - 1) / 2 ∧ 2 ^ w < 2 * c.size) ∧
      .tempLoad m ∈ (mySort w alloc fuel W c e).trace ∧
      .store m ∈ (mySort w alloc fuel W c e).trace := by
  obtain ⟨fuel, m, hm, hload, hstore⟩ :=
    exists_whole_merge w e.stackJunk (copiedIn W c e) h.size c.bufferSize.isLt
  have hsub : (endState (mergesort w e.stackJunk fuel (copiedIn W c e) 0 (c.size - 1))).trace ⊆
      (mySort w alloc fuel W c e).trace := (trace_of_accepted h).subset
  exact ⟨fuel, m, hm, hsub hload, hsub hstore⟩

variable (alloc W) in
theorem exists_temp_overflow (hw : 16 ≤ w) (h : Accepted c e) (hn : 256 < c.size) :
    ∃ fuel, ∃ ev ∈ (mySort w alloc fuel W c e).trace, ¬ ev.TempIn 256 := by
  obtain ⟨fuel, m, hm, hload, -⟩ := exists_last_access alloc W h
  have hpow : 2 ^ 16 ≤ 2 ^ w := Nat.pow_le_pow_right (by decide) hw
  refine ⟨fuel, _, hload, ?_⟩
  show ¬ m < 256
  omega

variable (alloc W) in
theorem exists_heap_overflow (h : Accepted c e) (hwrap : 2 ^ w ≤ 4 * c.size) :
    ∃ fuel, ∃ ev ∈ (mySort w alloc fuel W c e).trace, ¬ ev.HeapIn (byteCount w c.size / 4) := by
  obtain ⟨fuel, m, hm, -, hstore⟩ := exists_last_access alloc W h
  refine ⟨fuel, _, hstore, ?_⟩
  show ¬ m < byteCount w c.size / 4
  -- `buffer_size` is a `w`-bit value of at least 256, so `2 ^ w` is a multiple of 4
  have hlt : c.size < 2 ^ w := c.bufferSize.isLt
  have hn := h.size
  have h2 : 2 ≤ w := by
    by_contra hw
    have : 2 ^ w ≤ 2 ^ 2 := Nat.pow_le_pow_right (by decide) (by omega)
    omega
  obtain ⟨q, hq⟩ : 4 ∣ 2 ^ w := Nat.pow_dvd_pow 2 h2
  have hmod : byteCount w c.size < 2 ^ w := Nat.mod_lt _ (by omega)
  have hsub : byteCount w c.size ≤ 4 * c.size - 2 ^ w := by
    rw [byteCount, Nat.mod_eq_sub_mod hwrap]
    exact Nat.mod_le _ _
  omega

/-- A call never leaves the 256 elements of `temp` exactly when it is not
    accepted or its size is 256. A `size_t` has at least 16 bits. -/
theorem mySort_tempIn_iff (alloc : Allocator) (W : World) (c : Call w) (e : Answers)
    (hw : 16 ≤ w) :
    (∀ fuel, ∀ ev ∈ (mySort w alloc fuel W c e).trace, ev.TempIn 256) ↔
      (Accepted c e → c.size = 256) := by
  constructor
  · intro hall h
    by_contra hne
    obtain ⟨fuel, ev, hev, hout⟩ := exists_temp_overflow alloc W hw h
      (lt_of_le_of_ne h.size (Ne.symm hne))
    exact hout (hall fuel ev hev)
  · intro hsize fuel ev hev
    by_cases h : Accepted c e
    · have hpow : 2 ^ 16 ≤ 2 ^ w := Nat.pow_le_pow_right (by decide) hw
      have hn := hsize h
      have hin := (trace_bounded h (by omega) ev hev).2
      rwa [hn] at hin
    · rw [trace_eq_nil h] at hev
      exact absurd hev (List.not_mem_nil)

theorem mySort_tempIn_iff_32 :
    (∀ fuel, ∀ ev ∈ (mySort 32 firstFree fuel ⟨fun _ => 0, ∅, []⟩ ⟨0, 256, 0⟩ granted).trace,
      ev.TempIn 256) ↔ (Accepted (⟨0, 256, 0⟩ : Call 32) granted → (256 : ℕ) = 256) :=
  mySort_tempIn_iff firstFree ⟨fun _ => 0, ∅, []⟩ (⟨0, 256, 0⟩ : Call 32) granted (by decide)

/-- A buffer of 257 words passes the entry check, and merging it leaves `temp`. -/
theorem tempIn_fails_257 : Accepted (⟨0, 257, 0⟩ : Call 32) granted ∧
    ¬ ∀ fuel, ∀ ev ∈ (mySort 32 firstFree fuel ⟨fun _ => 0, ∅, []⟩ ⟨0, 257, 0⟩ granted).trace,
      ev.TempIn 256 := by
  have h : Accepted (⟨0, 257, 0⟩ : Call 32) granted := ⟨by decide, rfl, rfl, rfl⟩
  refine ⟨h, fun hall => ?_⟩
  obtain ⟨fuel, ev, hev, hout⟩ :=
    exists_temp_overflow firstFree ⟨fun _ => 0, ∅, []⟩ (by decide) h (by decide)
  exact hout (hall fuel ev hev)

/-- A call never leaves the elements that its kernel buffers hold exactly when it
    is not accepted or its byte count does not wrap. -/
theorem mySort_heapIn_iff (alloc : Allocator) (W : World) (c : Call w) (e : Answers) :
    (∀ fuel, ∀ ev ∈ (mySort w alloc fuel W c e).trace, ev.HeapIn (byteCount w c.size / 4)) ↔
      (Accepted c e → 4 * c.size < 2 ^ w) := by
  constructor
  · intro hall h
    by_contra hwrap
    obtain ⟨fuel, ev, hev, hout⟩ := exists_heap_overflow alloc W h (not_lt.mp hwrap)
    exact hout (hall fuel ev hev)
  · intro hfit fuel ev hev
    by_cases h : Accepted c e
    · have hlt := hfit h
      rw [words_eq hlt]
      exact (trace_bounded h (by omega) ev hev).1
    · rw [trace_eq_nil h] at hev
      exact absurd hev (List.not_mem_nil)

/-- The byte count of 2^30+256 words is 1024: the buffers hold 256 words, and
    `mergesort` runs over all of them. -/
theorem heapIn_fails_wrapped : byteCount 32 1073742080 = 1024 ∧
    Accepted (⟨0, 1073742080, 0⟩ : Call 32) granted ∧
    ¬ ∀ fuel, ∀ ev ∈
      (mySort 32 firstFree fuel ⟨fun _ => 0, ∅, []⟩ ⟨0, 1073742080, 0⟩ granted).trace,
      ev.HeapIn (1024 / 4) := by
  have h : Accepted (⟨0, 1073742080, 0⟩ : Call 32) granted := ⟨by decide, rfl, rfl, rfl⟩
  refine ⟨by decide, h, fun hall => ?_⟩
  obtain ⟨fuel, ev, hev, hout⟩ :=
    exists_heap_overflow firstFree ⟨fun _ => 0, ∅, []⟩ h (by decide)
  exact hout (hall fuel ev hev)

end Apes.MySort
