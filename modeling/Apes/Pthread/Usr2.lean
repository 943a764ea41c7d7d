import Apes.Pthread.Children

/-!
# `SIGUSR2` and the two child threads

`kill_thread_handler` sets `flag2` for both threads, and `child2_thread_callback` clears it
when it leaves. A `child1_thread_callback` that has not polled the variable by then never
learns of the signal, and completes its work.
-/

namespace Apes.Pthread

open Apes

variable {t : CharType} {text : List UInt8} {s : State} {a : Action}

/-- The signal is still to be seen, or both threads have exited. -/
def KillPending (s : State) : Prop := s.flag2 = true ∨ s.child1.Exited ∧ s.child2.Exited

instance : DecidablePred KillPending := fun _ => inferInstanceAs (Decidable (_ ∨ _))

/-- `flag2` is cleared only after `child1_thread_callback` has exited. -/
def ClearsLate (s : State) (a : Action) : Prop := a = .leave2 → s.child1.Exited

instance (s : State) (a : Action) : Decidable (ClearsLate s a) :=
  inferInstanceAs (Decidable (_ → _))

theorem act_flag2 (text : List UInt8) (s : State) (h : a ≠ .leave2) (h' : s.flag2 = true) :
    (act text a s).flag2 = true := by
  cases a with
  | leave2 => exact absurd rfl h
  | usr2 => rfl
  | _ => exact h'

theorem Child1.Exited.pc_ne {c : Child1} (h : c.Exited) :
    c.pc ≠ .entry ∧ c.pc ≠ .chars ∧ c.pc ≠ .report := by
  rcases h with h | h <;> rw [h] <;> decide

/-- A thread that has exited takes no steps. -/
theorem act_child1_of_exited (hg : guard t s a) (h : s.child1.Exited) :
    (act text a s).child1 = s.child1 := by
  have hpc := h.pc_ne
  cases a with
  | open1 => exact absurd hg hpc.1
  | char1 => exact absurd hg.1 hpc.2.1
  | processed1 => exact absurd hg.1 hpc.2.1
  | report1 => exact absurd hg.1 hpc.2.2
  | kill1 =>
    rcases hg.1 with hp | hp
    · exact absurd hp.1 hpc.2.1
    · exact absurd hp.1 hpc.2.2
  | finish1 => exact absurd hg.1 hpc.2.2
  | _ => rfl

theorem act_child2_of_exited (hg : guard t s a) (h : s.child2.Exited) :
    (act text a s).child2 = s.child2 := by
  have hne : ∀ pc, s.child2.pc = pc → pc = .exited := fun pc hpc => hpc.symm.trans h
  cases a with
  | open2 | head2 | leave2 | check2 | open2Stat | usage2 | clear2 =>
    exact absurd (hne _ hg) (by decide)
  | fgets2 | parse2 => exact absurd (hne _ hg.1) (by decide)
  | _ => rfl

/-- A step that does not clear `flag2` too early leaves the signal pending. -/
theorem KillPending.act (hg : guard t s a) (hlate : ClearsLate s a) (h : KillPending s) :
    KillPending (act text a s) := by
  rcases h with h | ⟨h1, h2⟩
  · by_cases ha : a = .leave2
    · subst ha
      exact Or.inr ⟨hlate rfl, rfl⟩
    · exact Or.inl (act_flag2 text s ha h)
  · refine Or.inr ⟨?_, ?_⟩
    · rwa [act_child1_of_exited hg h1]
    · rwa [act_child2_of_exited hg h2]

end Apes.Pthread
