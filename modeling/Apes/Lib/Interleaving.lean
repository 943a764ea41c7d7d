import Mathlib.Data.List.Basic

/-!
# Interleavings

A list interleaves two lists if it is made by always taking the head of one of the two; the
order of the elements of each list is kept. Merging two lists interleaves them, whatever the
comparison is.
-/

namespace Apes

variable {α : Type*}

/-- `Interleaving xs ys zs`: the elements of `xs` and of `ys`, each in their order, make up
    `zs`. -/
inductive Interleaving : List α → List α → List α → Prop
  | nil : Interleaving [] [] []
  | left {xs ys zs : List α} (x : α) (h : Interleaving xs ys zs) :
    Interleaving (x :: xs) ys (x :: zs)
  | right {xs ys zs : List α} (y : α) (h : Interleaving xs ys zs) :
    Interleaving xs (y :: ys) (y :: zs)

namespace Interleaving

theorem symm {xs ys zs : List α} (h : Interleaving xs ys zs) : Interleaving ys xs zs := by
  induction h with
  | nil => exact nil
  | left x _ ih => exact right x ih
  | right y _ ih => exact left y ih

theorem self_nil (xs : List α) : Interleaving xs [] xs := by
  induction xs with
  | nil => exact nil
  | cons x xs ih => exact left x ih

theorem nil_self (ys : List α) : Interleaving [] ys ys := (self_nil ys).symm

/-- Merging takes the head of one of the two lists, whatever `le` says. -/
theorem merge (xs ys : List α) (le : α → α → Bool) : Interleaving xs ys (xs.merge ys le) := by
  induction xs generalizing ys with
  | nil =>
    rw [List.nil_merge]
    exact nil_self ys
  | cons x xs ihx =>
    induction ys with
    | nil =>
      rw [List.merge_right]
      exact self_nil (x :: xs)
    | cons y ys ihy =>
      rw [List.cons_merge_cons]
      split
      · exact left x (ihx (y :: ys))
      · exact right y ihy

end Interleaving

end Apes
