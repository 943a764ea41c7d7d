import Apes.MySort.Merge

/-!
# What `mergesort` computes

Where `2 * j + 2 ≤ 2 ^ w` neither `i+j` nor `mid+1` wraps; there a recursion
that is allowed to go deep enough ends and sorts its slice. The accesses are
bounded there at any depth, and a trace only grows whatever the arguments are.
-/

namespace Apes.MySort

open Apes

variable {w : ℕ} {junk : ℕ → Int32} {fuel : ℕ} {s : Sorting} {i j : ℕ}

theorem middle_eq (hij : i ≤ j) (hw : 2 * j + 2 ≤ 2 ^ w) : middle w i j = (i + j) / 2 := by
  rw [middle, Nat.mod_eq_of_lt (by omega)]

theorem afterMiddle_eq (hij : i ≤ j) (hw : 2 * j + 2 ≤ 2 ^ w) :
    afterMiddle w i j = (i + j) / 2 + 1 := by
  rw [afterMiddle, middle_eq hij hw, Nat.mod_eq_of_lt (by omega)]

theorem mergesort_of_not_lt (h : ¬ i < j) :
    mergesort w junk (fuel + 1) s i j = .ok (s.emit (.call i j)) := by
  rw [mergesort, if_neg h]

theorem mergesort_of_lt (h : i < j) :
    mergesort w junk (fuel + 1) s i j =
      (mergesort w junk fuel (s.emit (.call i j)) i (middle w i j)).bind fun s =>
        (mergesort w junk fuel s (afterMiddle w i j) j).bind fun s =>
          .ok (merge junk s i (middle w i j) (afterMiddle w i j) j) := by
  rw [mergesort, if_pos h]
  rfl

/-- `merge` turns two neighbouring sorted runs into one. -/
theorem merge_sortedOn {a b c : ℕ → Int32} {trace : List Event} {m : ℕ} (h1 : i ≤ m) (h2 : m < j)
    (hl : SortedOn (· ≤ ·) a b i (m + 1 - i)) (hr : SortedOn (· ≤ ·) b c (m + 1) (j - m)) :
    SortedOn (· ≤ ·) a (merge junk ⟨c, trace⟩ i m (m + 1) j).a i (j + 1 - i) := by
  have hm : i + (m + 1 - i) = m + 1 := by omega
  have hn : m + 1 - i + (j - m) = j + 1 - i := by omega
  have hslice : slice (merge junk ⟨c, trace⟩ i m (m + 1) j).a i (j + 1 - i) =
      merged (slice c i (m + 1 - i)) (slice c (m + 1) (j - m)) := merge_slice h1 h2
  rw [← hm] at hr
  rw [← hn]
  refine hl.combine hr ?_ ?_ ?_
  · intro hs1 hs2
    rw [hn, hslice]
    rw [hm] at hs2
    exact merged_sorted hs1 hs2
  · rw [hn, hslice, hm]
    exact merged_perm _ _
  · intro x hx
    exact merge_a_of_outside (by omega)

variable (junk fuel s) in
/-- With enough fuel `mergesort` ends, and it sorts its slice and nothing else. -/
theorem mergesort_ok (hij : i ≤ j) (hw : 2 * j + 2 ≤ 2 ^ w) (hf : j - i < fuel) :
    ∃ s', mergesort w junk fuel s i j = .ok s' ∧ SortedOn (· ≤ ·) s.a s'.a i (j + 1 - i) := by
  induction fuel generalizing s i j with
  | zero => omega
  | succ fuel ih =>
    by_cases h : i < j
    · set m := (i + j) / 2 with hm
      have hmid := middle_eq hij hw
      have hafter := afterMiddle_eq hij hw
      obtain ⟨s1, h1, hs1⟩ := ih (s.emit (.call i j)) (i := i) (j := m) (by omega) (by omega)
        (by omega)
      obtain ⟨s2, h2, hs2⟩ := ih s1 (i := m + 1) (j := j) (by omega) hw (by omega)
      refine ⟨merge junk s2 i m (m + 1) j, ?_, ?_⟩
      · rw [mergesort_of_lt h, hmid, hafter, h1, Except.bind, h2]
        rfl
      · have hr : j + 1 - (m + 1) = j - m := by omega
        rw [hr] at hs2
        exact merge_sortedOn (by omega) (by omega) hs1 hs2
    · refine ⟨_, mergesort_of_not_lt h, ?_⟩
      exact SortedOn.refl_of_le_one _ _ (by omega)

theorem endState_bind_extends {P : Event → Prop} (r : Except Sorting Sorting)
    (k : Sorting → Except Sorting Sorting)
    (hk : ∀ s, Extends P s.trace (endState (k s)).trace) :
    Extends P (endState r).trace (endState (r.bind k)).trace := by
  cases r with
  | error s => exact Extends.refl _ _
  | ok s => exact hk s

/-- A call with `i < j` does what its two halves and its merge do. -/
theorem mergesort_extends {P : Event → Prop} (h : i < j) (hcall : P (.call i j))
    (hl : ∀ s, Extends P s.trace (endState (mergesort w junk fuel s i (middle w i j))).trace)
    (hr : ∀ s, Extends P s.trace (endState (mergesort w junk fuel s (afterMiddle w i j) j)).trace)
    (hm : ∀ s, Extends P s.trace
      (merge junk s i (middle w i j) (afterMiddle w i j) j).trace) :
    Extends P s.trace (endState (mergesort w junk (fuel + 1) s i j)).trace := by
  have h0 : Extends P s.trace (s.emit (.call i j)).trace :=
    Extends.append _ fun e he => List.mem_singleton.mp he ▸ hcall
  rw [mergesort_of_lt h]
  refine (h0.trans (hl _)).trans (endState_bind_extends _ _ fun s1 => ?_)
  exact (hr s1).trans (endState_bind_extends _ _ hm)

/-- However deep the recursion is allowed to go, what it does lies in `a[i..j]`
    and in the first `j - i + 1` elements of `temp`. -/
theorem mergesort_trace (hij : i ≤ j) (hw : 2 * j + 2 ≤ 2 ^ w) :
    Extends (Event.Within i j (j + 1 - i)) s.trace
      (endState (mergesort w junk fuel s i j)).trace := by
  induction fuel generalizing s i j with
  | zero => exact Extends.refl _ _
  | succ fuel ih =>
    by_cases h : i < j
    · have hmid := middle_eq hij hw
      have hafter := afterMiddle_eq hij hw
      refine mergesort_extends h ⟨le_rfl, hij, le_rfl⟩ (fun s => ?_) (fun s => ?_) (fun s => ?_)
      · rw [hmid]
        have hleft := ih (s := s) (i := i) (j := (i + j) / 2) (by omega) (by omega)
        exact hleft.mono fun e he => he.mono le_rfl (by omega) (by omega)
      · rw [hafter]
        have hright := ih (s := s) (i := (i + j) / 2 + 1) (j := j) (by omega) hw
        exact hright.mono fun e he => he.mono (by omega) le_rfl (by omega)
      · rw [hmid, hafter]
        exact merge_trace le_rfl (by omega) (by omega) le_rfl (by omega) le_rfl
    · rw [mergesort_of_not_lt h]
      apply Extends.append
      intro e he
      obtain rfl := List.mem_singleton.mp he
      exact ⟨le_rfl, hij, le_rfl⟩

/-- Whatever its arguments are, also where `i+j` wraps, `mergesort` only adds to
    the trace. -/
theorem mergesort_trace_grows :
    Extends (fun _ => True) s.trace (endState (mergesort w junk fuel s i j)).trace := by
  induction fuel generalizing s i j with
  | zero => exact Extends.refl _ _
  | succ fuel ih =>
    by_cases h : i < j
    · exact mergesort_extends h trivial (fun _ => ih) (fun _ => ih) (fun _ => merge_trace_grows)
    · rw [mergesort_of_not_lt h]
      exact Extends.append _ fun _ _ => trivial

/-- What the left half does is in the trace of the call. -/
theorem left_trace_subset (h : i < j) :
    (endState (mergesort w junk fuel (s.emit (.call i j)) i (middle w i j))).trace ⊆
      (endState (mergesort w junk (fuel + 1) s i j)).trace := by
  have hrest : ∀ s1 : Sorting, Extends (fun _ => True) s1.trace
      (endState ((mergesort w junk fuel s1 (afterMiddle w i j) j).bind fun s2 =>
        .ok (merge junk s2 i (middle w i j) (afterMiddle w i j) j))).trace := fun s1 =>
    mergesort_trace_grows.trans (endState_bind_extends _ _ fun _ => merge_trace_grows)
  rw [mergesort_of_lt h]
  exact (endState_bind_extends _ _ hrest).subset

variable (junk fuel s) in
/-- A call with `i < j` that does not wrap reads `temp[j-i]` and writes `a[j]`. -/
theorem mergesort_mem (h : i < j) (hw : 2 * j + 2 ≤ 2 ^ w) (hf : j - i < fuel) :
    .tempLoad (j - i) ∈ (endState (mergesort w junk fuel s i j)).trace ∧
      .store j ∈ (endState (mergesort w junk fuel s i j)).trace := by
  obtain ⟨fuel, rfl⟩ := Nat.exists_eq_add_one_of_ne_zero (show fuel ≠ 0 by omega)
  obtain ⟨s1, h1, -⟩ := mergesort_ok junk fuel (s.emit (.call i j)) (w := w) (i := i)
    (j := (i + j) / 2) (by omega) (by omega) (by omega)
  obtain ⟨s2, h2, -⟩ := mergesort_ok junk fuel s1 (w := w) (i := (i + j) / 2 + 1) (j := j)
    (by omega) hw (by omega)
  rw [mergesort_of_lt h, middle_eq h.le hw, afterMiddle_eq h.le hw, h1, Except.bind, h2]
  exact merge_mem h.le le_rfl

/-- The merge of a whole range that does not wrap is made, and so is that of the
    left half of a range that does. -/
theorem exists_whole_merge (w : ℕ) (junk : ℕ → Int32) (s : Sorting) {n : ℕ} (hn : 256 ≤ n)
    (hnw : n < 2 ^ w) :
    ∃ fuel m, (m = n - 1 ∨ m = (n - 1) / 2 ∧ 2 ^ w < 2 * n) ∧
      .tempLoad m ∈ (endState (mergesort w junk fuel s 0 (n - 1))).trace ∧
      .store m ∈ (endState (mergesort w junk fuel s 0 (n - 1))).trace := by
  by_cases hfit : 2 * n ≤ 2 ^ w
  · refine ⟨n, n - 1, .inl rfl, ?_⟩
    exact mergesort_mem junk n s (i := 0) (by omega) (by omega) (by omega)
  · have hmid : middle w 0 (n - 1) = (n - 1) / 2 := by
      rw [middle, Nat.zero_add, Nat.mod_eq_of_lt (by omega)]
    have hsub : (endState (mergesort w junk n (s.emit (.call 0 (n - 1))) 0
        (middle w 0 (n - 1)))).trace ⊆
        (endState (mergesort w junk (n + 1) s 0 (n - 1))).trace := left_trace_subset (by omega)
    rw [hmid] at hsub
    obtain ⟨hload, hstore⟩ := mergesort_mem junk n (s.emit (.call 0 (n - 1))) (w := w) (i := 0)
      (j := (n - 1) / 2) (by omega) (by omega) (by omega)
    exact ⟨n + 1, (n - 1) / 2, .inr ⟨rfl, by omega⟩, hsub hload, hsub hstore⟩

/-! ## On an array -/

/-- An array of 4-byte elements in a memory of `2 ^ w` bytes. What `mem` holds from `length`
    on is other memory. -/
structure Int32Array (w : ℕ) where
  mem : ℕ → Int32
  length : ℕ
  fits : 4 * length ≤ 2 ^ w

/-- `mergesort` sorts the elements `i` to `j` of an array and leaves all others as they
    are; its accesses stay in the array and in the 256 elements of `temp`. -/
theorem mergesort_sorts_slice (A : Int32Array w) (junk : ℕ → Int32) {i j : ℕ} (hij : i ≤ j)
    (hj : j < A.length) (htemp : j - i + 1 ≤ 256) :
    ∀ fuel, j - i < fuel → ∃ s', mergesort w junk fuel ⟨A.mem, []⟩ i j = .ok s' ∧
      (∀ e ∈ s'.trace, e.HeapIn A.length ∧ e.TempIn 256) ∧
      (slice s'.a i (j + 1 - i)).Pairwise (· ≤ ·) ∧
      (slice s'.a i (j + 1 - i)).Perm (slice A.mem i (j + 1 - i)) ∧
      ∀ x, x < i ∨ j < x → s'.a x = A.mem x := by
  intro fuel hf
  have hfits := A.fits
  have hw : 2 * j + 2 ≤ 2 ^ w := by omega
  obtain ⟨s', hs', hsorted⟩ := mergesort_ok junk fuel ⟨A.mem, []⟩ hij hw hf
  refine ⟨s', hs', ?_, hsorted.sorted, hsorted.perm, fun x hx => hsorted.frame x (by omega)⟩
  have htrace : Extends (Event.Within i j (j + 1 - i)) []
      (endState (mergesort w junk fuel ⟨A.mem, []⟩ i j)).trace := mergesort_trace hij hw
  rw [hs'] at htrace
  intro e he
  exact (htrace.forall_mem e he).in_array hj (by omega)

/-- The elements 1 to 3 of an array of five. -/
theorem mergesort_sorts_slice_five :
    let A : Int32Array 32 := ⟨fun x => [5, -3, 7, -3, 9].getD x 0, 5, by decide⟩
    ∃ s', mergesort 32 (fun _ => 0) 3 ⟨A.mem, []⟩ 1 3 = .ok s' ∧
      (∀ e ∈ s'.trace, e.HeapIn 5 ∧ e.TempIn 256) ∧
      (slice s'.a 1 3).Pairwise (· ≤ ·) ∧ (slice s'.a 1 3).Perm [-3, 7, -3] ∧
      ∀ x, x < 1 ∨ 3 < x → s'.a x = A.mem x :=
  mergesort_sorts_slice (⟨fun x => [5, -3, 7, -3, 9].getD x 0, 5, by decide⟩ : Int32Array 32)
    (fun _ => 0) (i := 1) (j := 3) (by decide) (by decide) (by decide) 3 (by decide)

end Apes.MySort
