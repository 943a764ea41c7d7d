import Mathlib.Data.Set.Function
import Mathlib.Algebra.Order.Group.Nat

/-!
# Copying upwards

A loop that copies one element after the other reads the element `k` after it has written
all elements below `k`. It copies what it is meant to copy if it has not written what it
reads.
-/

namespace Apes

variable {α β : Type*} [DecidableEq α]

/-- The memory `m` after the elements at `src 0`, …, `src (n-1)` have been copied, in this
    order, to `dst 0`, …, `dst (n-1)`. -/
def copyUp (dst src : ℕ → α) : ℕ → (α → β) → α → β
  | 0, m => m
  | n + 1, m => Function.update (copyUp dst src n m) (dst n) (copyUp dst src n m (src n))

variable {dst src : ℕ → α} {m : α → β} {n : ℕ}

/-- Nothing changes outside the destination. -/
theorem copyUp_of_forall_ne {x : α} (h : ∀ k < n, x ≠ dst k) : copyUp dst src n m x = m x := by
  induction n with
  | zero => rfl
  | succ n ih =>
    rw [copyUp, Function.update_of_ne (h n (Nat.lt_succ_self n))]
    exact ih fun k hk => h k (Nat.lt_succ_of_lt hk)

/-- No element is read that has been written before. -/
def ReadsBefore (dst src : ℕ → α) (n : ℕ) : Prop := ∀ j k, j < k → k < n → src k ≠ dst j

/-- The source is copied as it was before the first write. -/
theorem copyUp_apply (hinj : Set.InjOn dst {k | k < n}) (hreads : ReadsBefore dst src n) {k : ℕ}
    (hk : k < n) : copyUp dst src n m (dst k) = m (src k) := by
  induction n with
  | zero => exact absurd hk (Nat.not_lt_zero k)
  | succ n ih =>
    rw [copyUp]
    by_cases hkn : k = n
    · rw [hkn, Function.update_self]
      apply copyUp_of_forall_ne
      intro j hj
      exact hreads j n hj (Nat.lt_succ_self n)
    · have hlt : k < n := by omega
      have hne : dst k ≠ dst n := by
        intro heq
        exact hkn (hinj hk (Nat.lt_succ_self n) heq)
      rw [Function.update_of_ne hne]
      apply ih _ _ hlt
      · apply hinj.mono
        intro j hj
        exact Nat.lt_succ_of_lt hj
      · intro j l hjl hl
        exact hreads j l hjl (Nat.lt_succ_of_lt hl)

/-- A destination `d` elements above the source gets the first `d` elements again and again. -/
theorem copyUp_shift {d : ℕ} (hd : 0 < d) (hinj : Set.InjOn src {k | k < n + d})
    (hdst : ∀ k < n, dst k = src (k + d)) {k : ℕ} (hk : k < n) :
    copyUp dst src n m (dst k) = m (src (k % d)) := by
  induction n generalizing k with
  | zero => exact absurd hk (Nat.not_lt_zero k)
  | succ n ih =>
    have hmono : Set.InjOn src {k | k < n + d} :=
      hinj.mono fun j hj => Nat.lt_of_lt_of_le hj (by omega)
    have hbelow : ∀ k < n, dst k = src (k + d) := fun k hk => hdst k (Nat.lt_succ_of_lt hk)
    rw [copyUp]
    by_cases hkn : k = n
    · subst hkn
      rw [Function.update_self]
      by_cases hkd : k < d
      · rw [Nat.mod_eq_of_lt hkd]
        apply copyUp_of_forall_ne
        intro j hj heq
        rw [hbelow j hj] at heq
        have hjk := hinj (show k < k + 1 + d by omega) (show j + d < k + 1 + d by omega) heq
        omega
      · -- the source has been written `d` rounds before
        obtain ⟨j, rfl⟩ : ∃ j, k = j + d := ⟨k - d, by omega⟩
        rw [← hbelow j (by omega), ih hmono hbelow (by omega), Nat.add_mod_right]
    · have hlt : k < n := by omega
      have hne : dst k ≠ dst n := by
        rw [hdst k hk, hdst n (Nat.lt_succ_self n)]
        intro heq
        have hkn' := hinj (show k + d < n + 1 + d by omega) (show n + d < n + 1 + d by omega) heq
        omega
      rw [Function.update_of_ne hne]
      exact ih hmono hbelow hlt

end Apes
