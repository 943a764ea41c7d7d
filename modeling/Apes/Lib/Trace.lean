import Mathlib.Data.List.Basic

/-!
# Traces that only grow

`Extends P l l'` says that the trace `l'` is the trace `l` followed by events
that all satisfy `P`. It composes along a program's steps, and at the end it
tells which events of the final trace are new.
-/

namespace Apes

variable {ε : Type*} {P Q : ε → Prop} {l l' l'' : List ε}

/-- The trace `l'` continues `l` with events that satisfy `P`. -/
def Extends (P : ε → Prop) (l l' : List ε) : Prop := ∃ es, l' = l ++ es ∧ ∀ e ∈ es, P e

namespace Extends

theorem refl (P : ε → Prop) (l : List ε) : Extends P l l := ⟨[], by simp, by simp⟩

theorem append (l : List ε) {es : List ε} (h : ∀ e ∈ es, P e) : Extends P l (l ++ es) :=
  ⟨es, rfl, h⟩

theorem append_pair (l : List ε) {x y : ε} (hx : P x) (hy : P y) : Extends P l (l ++ [x, y]) := by
  apply append
  intro e he
  rcases List.mem_pair.mp he with rfl | rfl
  · exact hx
  · exact hy

theorem trans (h : Extends P l l') (h' : Extends P l' l'') : Extends P l l'' := by
  obtain ⟨es, rfl, he⟩ := h
  obtain ⟨es', rfl, he'⟩ := h'
  refine ⟨es ++ es', by simp, fun e hm => ?_⟩
  exact (List.mem_append.mp hm).elim (he e) (he' e)

theorem mono (hPQ : ∀ e, P e → Q e) (h : Extends P l l') : Extends Q l l' := by
  obtain ⟨es, rfl, he⟩ := h
  exact ⟨es, rfl, fun e hm => hPQ e (he e hm)⟩

theorem subset (h : Extends P l l') : l ⊆ l' := by
  obtain ⟨es, rfl, _⟩ := h
  exact List.subset_append_left l es

/-- Every event of the continued trace is an old one or satisfies `P`. -/
theorem mem (h : Extends P l l') {e : ε} (hm : e ∈ l') : e ∈ l ∨ P e := by
  obtain ⟨es, rfl, he⟩ := h
  exact (List.mem_append.mp hm).imp_right (he e)

/-- A trace that starts empty holds only events that satisfy `P`. -/
theorem forall_mem (h : Extends P [] l') : ∀ e ∈ l', P e := fun _ hm =>
  (h.mem hm).resolve_left (by simp)

end Extends

end Apes
