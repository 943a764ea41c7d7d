import Mathlib.Data.List.Basic

/-!
# Delivery in order

A sender puts `f 0, f 1, …` into a queue and a receiver takes them out again.
`Fifo f sent got queue` says that nothing has been lost, doubled or swapped: what
has been received, followed by what is under way, is what has been sent.
-/

namespace Apes

variable {α : Type*} {f : ℕ → α} {sent : ℕ} {got queue : List α}

def Fifo (f : ℕ → α) (sent : ℕ) (got queue : List α) : Prop :=
  got ++ queue = (List.range sent).map f

namespace Fifo

theorem empty (f : ℕ → α) : Fifo f 0 [] [] := rfl

theorem push (h : Fifo f sent got queue) : Fifo f (sent + 1) got (queue ++ [f sent]) := by
  rw [Fifo, List.range_succ, List.map_append, ← List.append_assoc, h]
  rfl

theorem pop {x : α} (h : Fifo f sent got (x :: queue)) : Fifo f sent (got ++ [x]) queue := by
  rw [Fifo, List.append_assoc]
  exact h

theorem length_eq (h : Fifo f sent got queue) : got.length + queue.length = sent := by
  have := congrArg List.length h
  simpa using this

/-- What has been received is what was sent first, in the order in which it was
    sent. -/
theorem got_eq (h : Fifo f sent got queue) : got = (List.range got.length).map f := by
  have hle : got.length ≤ sent := by
    have := h.length_eq
    omega
  calc
    got = (got ++ queue).take got.length := by rw [List.take_left]
    _ = ((List.range sent).map f).take got.length := by rw [h]
    _ = (List.range got.length).map f := by
      rw [← List.map_take, List.take_range, Nat.min_eq_left hle]

end Fifo

/-- A sender offers `f 0, f 1, …, f (bound - 1)` in this order, and some of them may
    not get into the queue. What has been received, followed by what is under way, has
    kept the order and has nothing twice. -/
def Lossy (f : ℕ → α) (bound : ℕ) (got queue : List α) : Prop :=
  (got ++ queue).Sublist ((List.range bound).map f)

namespace Lossy

variable {bound bound' : ℕ}

theorem empty (f : ℕ → α) (bound : ℕ) : Lossy f bound [] [] := List.nil_sublist _

theorem mono (h : Lossy f bound got queue) (hb : bound ≤ bound') : Lossy f bound' got queue :=
  h.trans ((List.range_sublist.mpr hb).map f)

theorem push (h : Lossy f bound got queue) : Lossy f (bound + 1) got (queue ++ [f bound]) := by
  rw [Lossy, List.range_succ, List.map_append, ← List.append_assoc]
  exact h.append (List.Sublist.refl _)

theorem pop {x : α} (h : Lossy f bound got (x :: queue)) : Lossy f bound (got ++ [x]) queue := by
  rw [Lossy, List.append_assoc]
  exact h

theorem got_sublist (h : Lossy f bound got queue) : got.Sublist ((List.range bound).map f) :=
  (List.sublist_append_left got queue).trans h

end Lossy

end Apes
