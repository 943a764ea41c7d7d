import Apes.Lib.Slice
import Apes.Lib.Trace
import Apes.MySort.Sort
import Mathlib.Tactic.Common

/-!
# What `merge` computes

The loops of `merge` leave in `temp` the two runs merged, and copy that back.
`List.merge` of the core library is the abstract operation: on equal heads it
takes the one of its first argument, and so the second run goes first here.
-/

namespace Apes.MySort

open Apes

/-- The order in which `merge` fills `temp`: the second run's head goes first
    unless the first run's head is smaller. -/
def merged (first second : List Int32) : List Int32 :=
  List.merge second first fun y x => y ≤ x

theorem merged_perm (first second : List Int32) : (merged first second).Perm (first ++ second) :=
  (List.merge_perm_append _).trans List.perm_append_comm

theorem merged_sorted {first second : List Int32} (h1 : first.Pairwise (· ≤ ·))
    (h2 : second.Pairwise (· ≤ ·)) : (merged first second).Pairwise (· ≤ ·) := by
  have htrans : ∀ a b c : Int32, decide (a ≤ b) → decide (b ≤ c) → decide (a ≤ c) := by
    intro a b c hab hbc
    simp only [decide_eq_true_eq] at hab hbc ⊢
    exact Int32.le_trans hab hbc
  have htotal : ∀ a b : Int32, decide (a ≤ b) || decide (b ≤ a) := by
    intro a b
    simpa using Int32.le_total a b
  have h := List.pairwise_merge htrans htotal second first (by simpa using h2) (by simpa using h1)
  simpa [merged] using h

theorem merged_cons_of_lt {x y : Int32} (xs ys : List Int32) (h : x < y) :
    merged (x :: xs) (y :: ys) = x :: merged xs (y :: ys) := by
  have hn : ¬ y ≤ x := fun hle => Int32.not_lt.mpr hle h
  simp [merged, hn]

theorem merged_cons_of_not_lt {x y : Int32} (xs ys : List Int32) (h : ¬ x < y) :
    merged (x :: xs) (y :: ys) = y :: merged (x :: xs) ys := by
  have hle : y ≤ x := Int32.not_lt.mp h
  simp [merged, hle]

@[simp] theorem merged_nil (ys : List Int32) : merged [] ys = ys := by simp [merged]

@[simp] theorem merged_nil_right (xs : List Int32) : merged xs [] = xs := by simp [merged]

/-! ## The values in `temp` -/

/-- What has been put into `temp`. -/
def Frame.filled (s : Frame) : List Int32 := slice s.temp 0 s.k

/-- The part of the first run that is still to be merged. -/
def Frame.rest1 (s : Frame) (j1 : ℕ) : List Int32 := slice s.a s.i (j1 + 1 - s.i)

/-- The part of the second run that is still to be merged. -/
def Frame.rest2 (s : Frame) (j2 : ℕ) : List Int32 := slice s.a s.j (j2 + 1 - s.j)

theorem filled_takeFirst (s : Frame) : s.takeFirst.filled = s.filled ++ [s.a s.i] := by
  simpa [Frame.filled] using slice_update_concat s.temp 0 s.k (s.a s.i)

theorem filled_takeSecond (s : Frame) : s.takeSecond.filled = s.filled ++ [s.a s.j] := by
  simpa [Frame.filled] using slice_update_concat s.temp 0 s.k (s.a s.j)

theorem rest1_eq_cons {s : Frame} {j1 : ℕ} (h : s.i ≤ j1) :
    s.rest1 j1 = s.a s.i :: s.takeFirst.rest1 j1 := by
  have hn : j1 + 1 - s.i = j1 + 1 - (s.i + 1) + 1 := by omega
  rw [Frame.rest1, hn, slice_succ]
  rfl

theorem rest2_eq_cons {s : Frame} {j2 : ℕ} (h : s.j ≤ j2) :
    s.rest2 j2 = s.a s.j :: s.takeSecond.rest2 j2 := by
  have hn : j2 + 1 - s.j = j2 + 1 - (s.j + 1) + 1 := by omega
  rw [Frame.rest2, hn, slice_succ]
  rfl

theorem rest1_eq_nil {s : Frame} {j1 : ℕ} (h : ¬ s.i ≤ j1) : s.rest1 j1 = [] := by
  rw [Frame.rest1, show j1 + 1 - s.i = 0 by omega, slice_zero]

theorem rest2_eq_nil {s : Frame} {j2 : ℕ} (h : ¬ s.j ≤ j2) : s.rest2 j2 = [] := by
  rw [Frame.rest2, show j2 + 1 - s.j = 0 by omega, slice_zero]

theorem drainFirst_a (j1 : ℕ) (s : Frame) : (drainFirst j1 s).a = s.a := by
  fun_induction drainFirst j1 s with
  | case1 s h ih => simpa using ih
  | case2 s h => rfl

theorem drainFirst_j (j1 : ℕ) (s : Frame) : (drainFirst j1 s).j = s.j := by
  fun_induction drainFirst j1 s with
  | case1 s h ih => simpa using ih
  | case2 s h => rfl

theorem drainSecond_a (j2 : ℕ) (s : Frame) : (drainSecond j2 s).a = s.a := by
  fun_induction drainSecond j2 s with
  | case1 s h ih => simpa using ih
  | case2 s h => rfl

theorem mergeBoth_a (j1 j2 : ℕ) (s : Frame) : (mergeBoth j1 j2 s).a = s.a := by
  fun_induction mergeBoth j1 j2 s with
  | case1 s h hlt ih => simpa using ih
  | case2 s h hlt ih => simpa using ih
  | case3 s h => rfl

theorem drainFirst_filled (j1 : ℕ) (s : Frame) :
    (drainFirst j1 s).filled = s.filled ++ s.rest1 j1 := by
  fun_induction drainFirst j1 s with
  | case1 s h ih =>
    rw [ih, filled_takeFirst, rest1_eq_cons h, List.append_assoc, List.singleton_append]
  | case2 s h => rw [rest1_eq_nil h, List.append_nil]

theorem drainSecond_filled (j2 : ℕ) (s : Frame) :
    (drainSecond j2 s).filled = s.filled ++ s.rest2 j2 := by
  fun_induction drainSecond j2 s with
  | case1 s h ih =>
    rw [ih, filled_takeSecond, rest2_eq_cons h, List.append_assoc, List.singleton_append]
  | case2 s h => rw [rest2_eq_nil h, List.append_nil]

/-- The three loops together append to `temp` what is left of the two runs,
    merged. -/
theorem loops_filled (j1 j2 : ℕ) (s : Frame) :
    (drainSecond j2 (drainFirst j1 (mergeBoth j1 j2 s))).filled =
      s.filled ++ merged (s.rest1 j1) (s.rest2 j2) := by
  fun_induction mergeBoth j1 j2 s with
  | case1 s h hlt ih =>
    rw [ih, filled_takeFirst, rest1_eq_cons h.1, rest2_eq_cons h.2, merged_cons_of_lt _ _ hlt,
      List.append_assoc, List.singleton_append, ← rest2_eq_cons h.2]
    rfl
  | case2 s h hlt ih =>
    rw [ih, filled_takeSecond, rest1_eq_cons h.1, rest2_eq_cons h.2, merged_cons_of_not_lt _ _ hlt,
      List.append_assoc, List.singleton_append, ← rest1_eq_cons h.1]
    rfl
  | case3 s h =>
    have h2 : (drainFirst j1 s).rest2 j2 = s.rest2 j2 := by
      simp only [Frame.rest2, drainFirst_a, drainFirst_j]
    rw [drainSecond_filled, drainFirst_filled, h2, List.append_assoc]
    by_cases h1 : s.i ≤ j1
    · rw [rest2_eq_nil (fun h2 => h ⟨h1, h2⟩), merged_nil_right, List.append_nil]
    · rw [rest1_eq_nil h1, merged_nil, List.nil_append]

theorem copyBack_a (j2 : ℕ) (s : Frame) (x : ℕ) :
    (copyBack j2 s).a x = if s.i ≤ x ∧ x ≤ j2 then s.temp (s.j + (x - s.i)) else s.a x := by
  fun_induction copyBack j2 s with
  | case1 s h ih =>
    rw [ih]
    by_cases hx : x = s.i
    · subst hx
      simp [h]
    · by_cases hx' : s.i + 1 ≤ x ∧ x ≤ j2
      · have h1 : s.j + 1 + (x - (s.i + 1)) = s.j + (x - s.i) := by omega
        simp only [Frame.putBack_i, Frame.putBack_j, Frame.putBack_temp]
        rw [if_pos hx', if_pos ⟨by omega, hx'.2⟩, h1]
      · simp only [Frame.putBack_i, Frame.putBack_a]
        rw [if_neg hx', if_neg (by omega), Function.update_of_ne hx]
  | case2 s h => rw [if_neg (by omega)]

variable {junk : ℕ → Int32} {s : Sorting} {i1 j1 j2 : ℕ}

theorem gather_a {i2 : ℕ} : (gather junk s i1 j1 i2 j2).a = s.a := by
  rw [gather, drainSecond_a, drainFirst_a, mergeBoth_a]

theorem gather_filled (h2 : j1 + 1 ≤ j2) :
    (gather junk s i1 j1 (j1 + 1) j2).filled =
      merged (slice s.a i1 (j1 + 1 - i1)) (slice s.a (j1 + 1) (j2 - j1)) := by
  have hn : j2 + 1 - (j1 + 1) = j2 - j1 := by omega
  have h := loops_filled j1 j2 ⟨s.a, junk, i1, j1 + 1, 0, s.trace⟩
  simpa [gather, Frame.filled, Frame.rest1, Frame.rest2, hn] using h

theorem gather_k (h1 : i1 ≤ j1) (h2 : j1 + 1 ≤ j2) :
    (gather junk s i1 j1 (j1 + 1) j2).k = j2 + 1 - i1 := by
  calc (gather junk s i1 j1 (j1 + 1) j2).k
      = (gather junk s i1 j1 (j1 + 1) j2).filled.length := (slice_length _ _ _).symm
    _ = (slice s.a i1 (j1 + 1 - i1) ++ slice s.a (j1 + 1) (j2 - j1)).length := by
      rw [gather_filled h2]
      exact (merged_perm _ _).length_eq
    _ = j2 + 1 - i1 := by
      rw [List.length_append, slice_length, slice_length]
      omega

/-- `merge` leaves the merge of its two runs in their place. -/
theorem merge_slice (h1 : i1 ≤ j1) (h2 : j1 + 1 ≤ j2) :
    slice (merge junk s i1 j1 (j1 + 1) j2).a i1 (j2 + 1 - i1) =
      merged (slice s.a i1 (j1 + 1 - i1)) (slice s.a (j1 + 1) (j2 - j1)) := by
  rw [← gather_filled h2, Frame.filled, gather_k h1 h2]
  refine slice_eq_slice fun k hk => ?_
  simp only [merge, copyBack_a]
  rw [if_pos (by omega)]
  congr 1
  omega

/-- `merge` changes nothing outside its two runs. -/
theorem merge_a_of_outside {i2 : ℕ} {x : ℕ} (h : x < i1 ∨ j2 < x) :
    (merge junk s i1 j1 i2 j2).a x = s.a x := by
  simp only [merge, copyBack_a]
  rw [if_neg (by omega), gather_a]

/-! ## The accesses -/

/-- The event stays inside `a[lo..hi]` and inside the first `top` elements of
    `temp`; a call is one for a part of `a[lo..hi]`. -/
def Event.Within (lo hi top : ℕ) : Event → Prop
  | .call i j => lo ≤ i ∧ i ≤ j ∧ j ≤ hi
  | .load x | .store x => lo ≤ x ∧ x ≤ hi
  | .tempLoad k | .tempStore k => k < top
  | .srcStore _ => False

theorem Event.Within.mono {lo hi top lo' hi' top' : ℕ} (h1 : lo' ≤ lo) (h2 : hi ≤ hi')
    (h3 : top ≤ top') {e : Event} (h : e.Within lo hi top) : e.Within lo' hi' top' := by
  cases e <;> simp only [Event.Within] at h ⊢ <;> omega

theorem Event.Within.in_array {lo hi top len cap : ℕ} (h1 : hi < len) (h2 : top ≤ cap) {e : Event}
    (h : e.Within lo hi top) : e.HeapIn len ∧ e.TempIn cap := by
  cases e <;> simp only [Event.Within, Event.HeapIn, Event.TempIn, and_true, true_and] at h ⊢ <;>
    omega

/-- The counters have passed `lo`, and `temp` has room up to `top` for what is
    left of the two runs. -/
def Frame.Fits (s : Frame) (lo top j1 j2 : ℕ) : Prop :=
  lo ≤ s.i ∧ lo ≤ s.j ∧ s.k + (j1 + 1 - s.i) + (j2 + 1 - s.j) ≤ top

section Accesses

variable {lo hi top : ℕ} {s : Frame}

theorem takeFirst_trace (h : s.Fits lo top j1 j2) (hi1 : s.i ≤ j1) (h1 : j1 ≤ hi) :
    Extends (Event.Within lo hi top) s.trace s.takeFirst.trace ∧ s.takeFirst.Fits lo top j1 j2 := by
  obtain ⟨hlo, hlo', htop⟩ := h
  constructor
  · apply Extends.append_pair
    · exact ⟨hlo, hi1.trans h1⟩
    · show s.k < top
      omega
  · simp only [Frame.Fits, Frame.takeFirst]
    omega

theorem takeSecond_trace (h : s.Fits lo top j1 j2) (hj2 : s.j ≤ j2) (h2 : j2 ≤ hi) :
    Extends (Event.Within lo hi top) s.trace s.takeSecond.trace ∧
      s.takeSecond.Fits lo top j1 j2 := by
  obtain ⟨hlo, hlo', htop⟩ := h
  constructor
  · apply Extends.append_pair
    · exact ⟨hlo', hj2.trans h2⟩
    · show s.k < top
      omega
  · simp only [Frame.Fits, Frame.takeSecond]
    omega

theorem compare_trace (h : s.Fits lo top j1 j2) (hi1 : s.i ≤ j1) (hj2 : s.j ≤ j2) (h1 : j1 ≤ hi)
    (h2 : j2 ≤ hi) : Extends (Event.Within lo hi top) s.trace s.compare.trace := by
  obtain ⟨hlo, hlo', -⟩ := h
  apply Extends.append_pair
  · exact ⟨hlo, hi1.trans h1⟩
  · exact ⟨hlo', hj2.trans h2⟩

theorem mergeBoth_trace (h : s.Fits lo top j1 j2) (h1 : j1 ≤ hi) (h2 : j2 ≤ hi) :
    Extends (Event.Within lo hi top) s.trace (mergeBoth j1 j2 s).trace ∧
      (mergeBoth j1 j2 s).Fits lo top j1 j2 := by
  fun_induction mergeBoth j1 j2 s with
  | case1 s hb hlt ih =>
    have hc := compare_trace h hb.1 hb.2 h1 h2
    have ht := takeFirst_trace (s := s.compare) h hb.1 h1
    obtain ⟨hr, hf⟩ := ih ht.2
    exact ⟨(hc.trans ht.1).trans hr, hf⟩
  | case2 s hb hlt ih =>
    have hc := compare_trace h hb.1 hb.2 h1 h2
    have ht := takeSecond_trace (s := s.compare) h hb.2 h2
    obtain ⟨hr, hf⟩ := ih ht.2
    exact ⟨(hc.trans ht.1).trans hr, hf⟩
  | case3 s hb => exact ⟨Extends.refl _ _, h⟩

theorem drainFirst_trace (h : s.Fits lo top j1 j2) (h1 : j1 ≤ hi) :
    Extends (Event.Within lo hi top) s.trace (drainFirst j1 s).trace ∧
      (drainFirst j1 s).Fits lo top j1 j2 := by
  fun_induction drainFirst j1 s with
  | case1 s hb ih =>
    have ht := takeFirst_trace h hb h1
    obtain ⟨hr, hf⟩ := ih ht.2
    exact ⟨ht.1.trans hr, hf⟩
  | case2 s hb => exact ⟨Extends.refl _ _, h⟩

theorem drainSecond_trace (h : s.Fits lo top j1 j2) (h2 : j2 ≤ hi) :
    Extends (Event.Within lo hi top) s.trace (drainSecond j2 s).trace := by
  fun_induction drainSecond j2 s with
  | case1 s hb ih =>
    have ht := takeSecond_trace h hb h2
    exact ht.1.trans (ih ht.2)
  | case2 s hb => exact Extends.refl _ _

theorem copyBack_trace (hlo : lo ≤ s.i) (h2 : j2 ≤ hi) (htop : s.j + (j2 + 1 - s.i) ≤ top) :
    Extends (Event.Within lo hi top) s.trace (copyBack j2 s).trace := by
  fun_induction copyBack j2 s with
  | case1 s hb ih =>
    have ht : Extends (Event.Within lo hi top) s.trace s.putBack.trace := by
      apply Extends.append_pair
      · show s.j < top
        omega
      · exact ⟨hlo, hb.trans h2⟩
    refine ht.trans (ih ?_ ?_)
    · simp only [Frame.putBack_i]
      omega
    · simp only [Frame.putBack_i, Frame.putBack_j]
      omega
  | case2 s hb => exact Extends.refl _ _

/-- The last loop reads every element of `temp` that it needs and writes every
    element of `a` up to `j2`. -/
theorem copyBack_mem {x : ℕ} (h1 : s.i ≤ x) (h2 : x ≤ j2) :
    .tempLoad (s.j + (x - s.i)) ∈ (copyBack j2 s).trace ∧ .store x ∈ (copyBack j2 s).trace := by
  fun_induction copyBack j2 s with
  | case1 s hb ih =>
    by_cases hx : x = s.i
    · subst hx
      have hext : Extends (Event.Within 0 j2 (s.putBack.j + (j2 + 1 - s.putBack.i)))
          s.putBack.trace (copyBack j2 s.putBack).trace :=
        copyBack_trace (Nat.zero_le _) le_rfl le_rfl
      have hsub := hext.subset
      constructor
      · exact hsub (by simp)
      · exact hsub (by simp)
    · have hoff : s.putBack.j + (x - s.putBack.i) = s.j + (x - s.i) := by
        simp only [Frame.putBack_i, Frame.putBack_j]
        omega
      have h := ih (by simp only [Frame.putBack_i]; omega)
      rwa [hoff] at h
  | case2 s hb => omega

end Accesses

/-- All accesses of `merge` lie in the two runs and in the part of `temp` that
    has room for them. -/
theorem merge_trace {lo hi top i2 : ℕ} (hi1 : lo ≤ i1) (hi2 : lo ≤ i2) (hj1 : j1 ≤ hi)
    (hj2 : j2 ≤ hi) (htop : (j1 + 1 - i1) + (j2 + 1 - i2) ≤ top) (htop' : j2 + 1 - i1 ≤ top) :
    Extends (Event.Within lo hi top) s.trace (merge junk s i1 j1 i2 j2).trace := by
  have hf : Frame.Fits ⟨s.a, junk, i1, i2, 0, s.trace⟩ lo top j1 j2 :=
    ⟨hi1, hi2, by simpa using htop⟩
  obtain ⟨hb, hf⟩ := mergeBoth_trace hf hj1 hj2
  obtain ⟨hd, hf⟩ := drainFirst_trace hf hj1
  have hs := drainSecond_trace hf hj2
  let g : Frame := { gather junk s i1 j1 i2 j2 with i := i1, j := 0 }
  have hc : Extends (Event.Within lo hi top) g.trace (copyBack j2 g).trace :=
    copyBack_trace hi1 hj2 (by simpa [g] using htop')
  exact ((hb.trans hd).trans hs).trans hc

/-- Whatever its arguments are, `merge` only adds to the trace. -/
theorem merge_trace_grows {i2 : ℕ} :
    Extends (fun _ => True) s.trace (merge junk s i1 j1 i2 j2).trace := by
  let top := (j1 + 1 - i1) + (j2 + 1 - i2) + (j2 + 1 - i1)
  have h : Extends (Event.Within 0 (max j1 j2) top) s.trace (merge junk s i1 j1 i2 j2).trace :=
    merge_trace (Nat.zero_le _) (Nat.zero_le _) (le_max_left _ _) (le_max_right _ _)
      (by omega) (by omega)
  exact h.mono fun _ _ => trivial

/-- `merge` reads the elements of `temp` up to the length of its range, and
    writes its whole range. -/
theorem merge_mem {i2 x : ℕ} (h1 : i1 ≤ x) (h2 : x ≤ j2) :
    .tempLoad (x - i1) ∈ (merge junk s i1 j1 i2 j2).trace ∧
      .store x ∈ (merge junk s i1 j1 i2 j2).trace := by
  let g : Frame := { gather junk s i1 j1 i2 j2 with i := i1, j := 0 }
  have h : .tempLoad (g.j + (x - g.i)) ∈ (copyBack j2 g).trace ∧
      .store x ∈ (copyBack j2 g).trace := copyBack_mem h1 h2
  rwa [show g.j + (x - g.i) = x - i1 from Nat.zero_add _] at h

end Apes.MySort
