import Apes.Ipc.Handler

/-!
# Two handlers that leave

A handler that leaves after a signal closes the channel that the other one receives over.
The two keep out of each other's way as long as a handler closes its channel only where
the other one will not make its receiving call any more: `flag` is set by then, so that
no handler enters another round.
-/

namespace Apes

/-- How the parts of the loop follow each other in `queues.c` and in `pipes.c`. -/
def Role.next : Role → Pc → Pc
  | .first, .head => .send
  | .first, .count => .call
  | .first, .log => .head
  | .second, .head => .call
  | .second, .log => .send
  | .second, .count => .head
  | _, .send => .count
  | _, .call => .waiting
  | _, .waiting => .log
  | _, pc => pc

namespace Pc

/-- How a handler goes on; `flag` is what it finds at the head of its loop. -/
inductive Next (r : Role) (flag : Bool) : Pc → Pc → Prop
  | leave (h : flag = true) : Next r flag .head .close
  | finish (h : flag = false) : Next r flag .head .done
  | enter (h : flag = false) : Next r flag .head (r.next .head)
  | send : Next r flag .send .count
  | count : Next r flag .count (r.next .count)
  | call : Next r flag .call .waiting
  | callFails : Next r flag .call .log
  | receive : Next r flag .waiting .log
  | log : Next r flag .log (r.next .log)
  | close : Next r flag .close .closeNext
  | closeNext : Next r flag .closeNext .killed
  | closeLast : Next r flag .close .killed

/-- On the way out after a signal. -/
def Leaves (pc : Pc) : Prop := pc = .close ∨ pc = .closeNext ∨ pc = .killed

/-- `thread1_handler` has passed its check of `flag` and not made its receiving call yet. -/
def WillCall (pc : Pc) : Prop := pc = .send ∨ pc = .count ∨ pc = .call

instance : DecidablePred WillCall := fun _ => inferInstanceAs (Decidable (_ ∨ _))

namespace Next

variable {r : Role} {flag : Bool} {pc pc' : Pc}

theorem checkHead {β : Type} (r : Role) (h : Handler β) (flag : Bool) (n : ℕ) :
    Next r flag .head (h.checkHead flag n (r.next .head)).pc := by
  cases flag with
  | true => exact .leave rfl
  | false =>
    by_cases hn : h.i = n
    · simpa [Handler.checkHead, hn] using Next.finish rfl
    · simpa [Handler.checkHead, hn] using Next.enter rfl

/-- A handler that has exited makes no step. -/
theorem ne_exited (hn : Next r flag pc pc') : pc ≠ .killed ∧ pc ≠ .done := by
  cases hn <;> exact ⟨nofun, nofun⟩

/-- A handler is on its way out only if it was before, or if it has just seen `flag`. -/
theorem leaves (hn : Next r flag pc pc') (hl : pc'.Leaves) :
    pc.Leaves ∨ pc = .head ∧ flag = true := by
  cases hn with
  | leave hf => exact Or.inr ⟨rfl, hf⟩
  | close | closeLast => exact Or.inl (Or.inl rfl)
  | closeNext => exact Or.inl (Or.inr (Or.inl rfl))
  | enter | count | log => cases r <;> simp [Leaves, Role.next] at hl
  | _ => simp [Leaves] at hl

end Next

end Pc

open Pc

/-- No handler that has closed the channel it sends over has left the other one before its
    receiving call; `closed` tells where the channel is closed. -/
structure Parted (closed : Pc → Prop) (flag : Bool) (pc1 pc2 : Pc) : Prop where
  leaves1 : pc1.Leaves → flag = true
  leaves2 : pc2.Leaves → flag = true
  parted1 : closed pc1 → pc2 ≠ .call
  parted2 : closed pc2 → ¬ pc1.WillCall

namespace Parted

variable {closed : Pc → Prop} {flag : Bool} {pc1 pc2 pc' : Pc}

theorem start (hclosed : ∀ pc, closed pc → pc.Leaves) : Parted closed false .head .head where
  leaves1 h := by simp [Leaves] at h
  leaves2 h := by simp [Leaves] at h
  parted1 _ := by decide
  parted2 hc := absurd (hclosed _ hc) (by simp [Leaves])

theorem signal (h : Parted closed flag pc1 pc2) : Parted closed true pc1 pc2 :=
  { h with leaves1 := fun _ => rfl, leaves2 := fun _ => rfl }

theorem step1 (h : Parted closed flag pc1 pc2) (hclosed : ∀ pc, closed pc → pc.Leaves)
    (hn : Next .first flag pc1 pc') (hc : closed pc' → closed pc1 ∨ pc2 ≠ .call) :
    Parted closed flag pc' pc2 where
  leaves1 hl := (hn.leaves hl).elim h.leaves1 And.right
  leaves2 := h.leaves2
  parted1 hc' := (hc hc').elim h.parted1 id
  parted2 hc' hw := by
    cases hn with
    | enter hf => exact absurd (h.leaves2 (hclosed _ hc')) (by simp [hf])
    | send => exact h.parted2 hc' (Or.inl rfl)
    | count => exact h.parted2 hc' (Or.inr (Or.inl rfl))
    | _ => simp [WillCall, Role.next] at hw

theorem step2 (h : Parted closed flag pc1 pc2) (hclosed : ∀ pc, closed pc → pc.Leaves)
    (hn : Next .second flag pc2 pc') (hc : closed pc' → closed pc2 ∨ ¬ pc1.WillCall) :
    Parted closed flag pc1 pc' where
  leaves1 := h.leaves1
  leaves2 hl := (hn.leaves hl).elim h.leaves2 And.right
  parted1 hc' hcall := by
    cases hn with
    | enter hf => exact absurd (h.leaves1 (hclosed _ hc')) (by simp [hf])
    | _ => cases hcall
  parted2 hc' := (hc hc').elim h.parted2 id

end Parted

end Apes
