import Mathlib.Data.List.Range
import Mathlib.Data.List.Perm.Basic

/-!
# Ledgers

What a thread acquires, every time a new identity, and what it releases. A ledger is
balanced where everything that was acquired has been released exactly once; something that
is released twice, or that was never acquired, leaves it unbalanced.
-/

namespace Apes

/-- The identities `0, …, acquired - 1` have been handed out. -/
structure Ledger where
  acquired : ℕ
  released : List ℕ
  deriving DecidableEq, Repr

namespace Ledger

def empty : Ledger := ⟨0, []⟩

/-- The identity that the next `acquire` hands out. -/
def next (l : Ledger) : ℕ := l.acquired

def acquire (l : Ledger) : Ledger := { l with acquired := l.acquired + 1 }

def release (l : Ledger) (x : ℕ) : Ledger := { l with released := x :: l.released }

/-- What has been acquired and not been released. -/
def held (l : Ledger) : List ℕ := (List.range l.acquired).filter fun x => x ∉ l.released

def Balanced (l : Ledger) : Prop := l.released.Perm (List.range l.acquired)

instance : DecidablePred Balanced := fun l =>
  inferInstanceAs (Decidable (l.released.Perm (List.range l.acquired)))

theorem mem_held {l : Ledger} {x : ℕ} : x ∈ l.held ↔ x < l.acquired ∧ x ∉ l.released := by
  simp [held]

/-- A balanced ledger holds nothing. -/
theorem Balanced.held_eq_nil {l : Ledger} (h : l.Balanced) : l.held = [] := by
  apply List.eq_nil_iff_forall_not_mem.mpr
  intro x hx
  rw [mem_held] at hx
  exact hx.2 (h.mem_iff.mpr (List.mem_range.mpr hx.1))

/-- What is acquired next and then released leaves a balanced ledger balanced. -/
theorem Balanced.acquire_release {l : Ledger} (h : l.Balanced) :
    (l.acquire.release l.next).Balanced := by
  have hperm : (l.acquired :: l.released).Perm (l.acquired :: List.range l.acquired) := h.cons _
  rw [Balanced, acquire, release, next, List.range_succ]
  exact hperm.trans (List.perm_append_singleton _ _).symm

/-- Once a balanced ledger has handed out an identity, this is all that it holds. -/
theorem Balanced.mem_held_acquire {l : Ledger} (h : l.Balanced) {x : ℕ} :
    x ∈ l.acquire.held ↔ x = l.next := by
  have hmem : x ∈ l.released ↔ x < l.acquired := h.mem_iff.trans List.mem_range
  simp only [mem_held, acquire, hmem, next]
  omega

end Ledger

end Apes
