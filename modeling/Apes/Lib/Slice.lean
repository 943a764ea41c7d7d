import Mathlib.Data.List.Basic
import Mathlib.Logic.Function.Basic
import Mathlib.Algebra.Order.Group.Nat

/-!
# Slices of arrays

An array is a function from indices to values; `slice a i n` lists the `n`
values from index `i` on. The lemmas say how a slice splits, what a store into
the array does to it, and when two arrays have the same slice.
-/

namespace Apes

variable {α : Type*}

/-- The values `a[i], …, a[i+n-1]` as a list. -/
def slice (a : ℕ → α) (i n : ℕ) : List α := (List.range' i n).map a

@[simp] theorem slice_length (a : ℕ → α) (i n : ℕ) : (slice a i n).length = n := by
  simp [slice]

@[simp] theorem slice_zero (a : ℕ → α) (i : ℕ) : slice a i 0 = [] := rfl

theorem slice_succ (a : ℕ → α) (i n : ℕ) : slice a i (n + 1) = a i :: slice a (i + 1) n := rfl

@[simp] theorem slice_getElem (a : ℕ → α) (i n k : ℕ) (h : k < (slice a i n).length) :
    (slice a i n)[k] = a (i + k) := by
  simp [slice]

theorem slice_add (a : ℕ → α) (i m n : ℕ) :
    slice a i (m + n) = slice a i m ++ slice a (i + m) n := by
  rw [slice, slice, slice, ← List.range'_append_1, List.map_append]

theorem slice_concat (a : ℕ → α) (i n : ℕ) : slice a i (n + 1) = slice a i n ++ [a (i + n)] :=
  slice_add a i n 1

/-- Arrays that agree on the indices of a slice have the same slice. -/
theorem slice_congr {a b : ℕ → α} {i n : ℕ} (h : ∀ x, i ≤ x → x < i + n → a x = b x) :
    slice a i n = slice b i n := by
  refine List.map_congr_left fun x hx => ?_
  obtain ⟨h1, h2⟩ := List.mem_range'_1.mp hx
  exact h x h1 h2

/-- Two arrays, read at two places, have the same slice when they agree offset by
    offset. -/
theorem slice_eq_slice {a b : ℕ → α} {i j n : ℕ} (h : ∀ k < n, a (i + k) = b (j + k)) :
    slice a i n = slice b j n := by
  apply List.ext_getElem (by simp)
  intro k hk _
  simpa using h k (by simpa using hk)

/-- A store right behind a slice extends it. -/
theorem slice_update_concat (a : ℕ → α) (i n : ℕ) (v : α) :
    slice (Function.update a (i + n) v) i (n + 1) = slice a i n ++ [v] := by
  rw [slice_concat, Function.update_self]
  congr 1
  exact slice_congr fun x _ hx => Function.update_of_ne (by omega) _ _

/-- Reading an array backwards lists its slice in reverse. -/
theorem slice_reverse (a : ℕ → α) (n : ℕ) :
    slice (fun k => a (n - 1 - k)) 0 n = (slice a 0 n).reverse := by
  apply List.ext_getElem (by simp)
  intro k hk _
  simp

/-- The memory `m` after the `n` values of `v` have been copied to `dst`. -/
def blit (m : ℕ → α) (dst n : ℕ) (v : ℕ → α) : ℕ → α := fun x =>
  if dst ≤ x ∧ x < dst + n then v (x - dst) else m x

theorem slice_blit (m : ℕ → α) (dst n : ℕ) (v : ℕ → α) :
    slice (blit m dst n v) dst n = slice v 0 n := by
  refine slice_eq_slice fun k hk => ?_
  rw [blit, if_pos (by omega), Nat.add_sub_cancel_left, Nat.zero_add]

theorem blit_of_outside (m : ℕ → α) {dst n x : ℕ} (v : ℕ → α) (h : x < dst ∨ dst + n ≤ x) :
    blit m dst n v x = m x := by
  rw [blit, if_neg (by omega)]

/-- `b` holds at the `n` indices from `i` on the values that `a` held there,
    ordered by `r`, and agrees with `a` at all other indices. -/
structure SortedOn (r : α → α → Prop) (a b : ℕ → α) (i n : ℕ) : Prop where
  sorted : (slice b i n).Pairwise r
  perm : (slice b i n).Perm (slice a i n)
  frame : ∀ x, x < i ∨ i + n ≤ x → b x = a x

namespace SortedOn

variable {r : α → α → Prop} {a b c d : ℕ → α} {i m n : ℕ}

theorem refl_of_le_one (a : ℕ → α) (i : ℕ) (h : n ≤ 1) : SortedOn r a a i n := by
  refine ⟨?_, .refl _, fun _ _ => rfl⟩
  obtain rfl | rfl : n = 0 ∨ n = 1 := by omega
  · exact List.Pairwise.nil
  · exact List.pairwise_singleton r (a i)

/-- Sorting a second slice leaves a first slice in front of it as it was. -/
theorem slice_first (h2 : SortedOn r b c (i + m) n) : slice c i m = slice b i m :=
  slice_congr fun x _ hx => h2.frame x (Or.inl hx)

/-- Two slices sorted one after the other, and then combined into `d` by an
    operation that keeps their values and orders them: the whole is sorted. -/
theorem combine (h1 : SortedOn r a b i m) (h2 : SortedOn r b c (i + m) n)
    (hsorted : (slice c i m).Pairwise r → (slice c (i + m) n).Pairwise r →
      (slice d i (m + n)).Pairwise r)
    (hperm : (slice d i (m + n)).Perm (slice c i m ++ slice c (i + m) n))
    (hframe : ∀ x, x < i ∨ i + (m + n) ≤ x → d x = c x) : SortedOn r a d i (m + n) := by
  have hfirst := h2.slice_first
  have hsecond : slice b (i + m) n = slice a (i + m) n :=
    slice_congr fun x hx _ => h1.frame x (Or.inr hx)
  refine ⟨hsorted (hfirst ▸ h1.sorted) h2.sorted, hperm.trans ?_, ?_⟩
  · rw [slice_add, ← hsecond, hfirst]
    exact h1.perm.append h2.perm
  · intro x hx
    rw [hframe x hx, h2.frame x (by omega), h1.frame x (by omega)]

end SortedOn

end Apes
