import Apes.MySort.Mergesort
import Mathlib.Data.Set.Lattice
import Mathlib.Order.CompletePartialOrder
import Mathlib.Order.Interval.Set.Basic

/-!
# The arithmetic of the recursion of `mergesort`

As long as an array of `n` elements of four bytes lies in a memory of `2 ^ w` bytes, no call
that `mergesort(a, 0, n-1)` makes wraps, and every call that goes on splits its range into
two shorter ones.
-/

namespace Apes.MySort

open Apes

/-- `left` and `right` are two parts of `whole`, each of them smaller than it. -/
structure Splits {α : Type*} (whole left right : Set α) : Prop where
  nonempty_left : left.Nonempty
  nonempty_right : right.Nonempty
  disjoint : Disjoint left right
  cover : left ∪ right = whole
  left_smaller : left ⊂ whole
  right_smaller : right ⊂ whole

/-- Two disjoint parts that are not empty are smaller than what they make up. -/
theorem Splits.of_disjoint {α : Type*} {whole left right : Set α} (hl : left.Nonempty)
    (hr : right.Nonempty) (hd : Disjoint left right) (hc : left ∪ right = whole) :
    Splits whole left right := by
  obtain ⟨x, hx⟩ := hl
  obtain ⟨y, hy⟩ := hr
  have hx' : x ∉ right := Set.disjoint_left.mp hd hx
  have hy' : y ∉ left := Set.disjoint_right.mp hd hy
  refine ⟨⟨x, hx⟩, ⟨y, hy⟩, hd, hc, ?_, ?_⟩
  · rw [← hc, Set.ssubset_iff_of_subset Set.subset_union_left]
    exact ⟨y, Or.inr hy, hy'⟩
  · rw [← hc, Set.ssubset_iff_of_subset Set.subset_union_right]
    exact ⟨x, Or.inl hx, hx'⟩

/-- A range is split behind one of its elements that is not the last one. -/
theorem splits_Icc {i m j : ℕ} (him : i ≤ m) (hmj : m < j) :
    Splits (Set.Icc i j) (Set.Icc i m) (Set.Icc (m + 1) j) := by
  apply Splits.of_disjoint
  · exact ⟨i, le_rfl, him⟩
  · exact ⟨j, hmj, le_rfl⟩
  · rw [Set.disjoint_left]
    intro x hx hx'
    exact absurd hx.2 (Nat.not_le.mpr hx'.1)
  · ext x
    simp only [Set.mem_union, Set.mem_Icc]
    omega

/-- The call `mergesort(a, i, j)` is one for a part of an array of `n` elements, its sums do
    not wrap, and if it goes on it splits its range. -/
structure Sound (w n i j : ℕ) : Prop where
  le : i ≤ j
  lt : j < n
  sum : i + j < 2 ^ w
  next : middle w i j + 1 < 2 ^ w
  mid : i < j → i ≤ middle w i j ∧ middle w i j < j
  splits : i < j →
    Splits (Set.Icc i j) (Set.Icc i (middle w i j)) (Set.Icc (afterMiddle w i j) j)

theorem Sound.of_le {w n i j : ℕ} (hn : 4 * n < 2 ^ w) (hij : i ≤ j) (hj : j < n) :
    Sound w n i j := by
  have hw : 2 * j + 2 ≤ 2 ^ w := by omega
  have hmid := middle_eq hij hw
  have hafter := afterMiddle_eq hij hw
  refine ⟨hij, hj, by omega, ?_, ?_, ?_⟩
  · rw [hmid]
    omega
  · intro h
    rw [hmid]
    omega
  · intro h
    rw [hmid, hafter]
    exact splits_Icc (by omega) (by omega)

/-- Every call that `mergesort(a, 0, n-1)` makes is sound, and the recursion ends. -/
theorem mergesort_recursion {w n : ℕ} (a junk : ℕ → Int32) (h1 : 1 ≤ n) (hn : 4 * n < 2 ^ w) :
    (∀ fuel i j, .call i j ∈ (endState (mergesort w junk fuel ⟨a, []⟩ 0 (n - 1))).trace →
      Sound w n i j) ∧
    ∀ fuel, n ≤ fuel → ∃ s', mergesort w junk fuel ⟨a, []⟩ 0 (n - 1) = .ok s' := by
  have hw : 2 * (n - 1) + 2 ≤ 2 ^ w := by omega
  constructor
  · intro fuel i j hcall
    have htrace : Extends (Event.Within 0 (n - 1) (n - 1 + 1 - 0)) []
        (endState (mergesort w junk fuel ⟨a, []⟩ 0 (n - 1))).trace :=
      mergesort_trace (Nat.zero_le _) hw
    obtain ⟨-, hij, hj⟩ := htrace.forall_mem _ hcall
    exact Sound.of_le hn hij (by omega)
  · intro fuel hfuel
    obtain ⟨s', hs', -⟩ := mergesort_ok junk fuel ⟨a, []⟩ (Nat.zero_le (n - 1)) hw (by omega)
    exact ⟨s', hs'⟩

/-- An array of 256 elements in a 32-bit memory. -/
theorem mergesort_recursion_256 :
    (∀ fuel i j, .call i j ∈
      (endState (mergesort 32 (fun _ => 0) fuel ⟨fun _ => 0, []⟩ 0 255)).trace →
      Sound 32 256 i j) ∧
    ∀ fuel, 256 ≤ fuel →
      ∃ s', mergesort 32 (fun _ => 0) fuel ⟨fun _ => 0, []⟩ 0 255 = .ok s' :=
  mergesort_recursion (n := 256) (fun _ => 0) (fun _ => 0) (by decide) (by decide)

end Apes.MySort
