import Apes.MySort.Contract
import Apes.Lib.Program

/-!
# The kernel heap over a sequence of calls

The calls of `my_sort` as a program over the memory that outlives them. The two
`kmalloc`s of a call are answered by at most one `kfree`, of the first block, so
a call leaves the heap as it found it only where it allocates nothing.
-/

namespace Apes.MySort

open Apes

/-- One call, with the answers of the kernel and the fuel that it runs on. -/
structure Request (w : ℕ) where
  call : Call w
  answers : Answers
  fuel : ℕ

namespace Request

variable {w : ℕ}

def exit (alloc : Allocator) (W : World) (r : Request w) : Exit :=
  mySort w alloc r.fuel W r.call r.answers

/-- The call leaves before it has allocated anything. -/
def AllocatesNothing (r : Request w) : Prop :=
  r.call.size < 256 ∨ r.answers.kmallocSrc = false

end Request

/-- Calls of `my_sort`, one after the other; only calls that return are steps. -/
def sysCalls (w : ℕ) (alloc : Allocator) : Program World (Request w) where
  init _ := True
  guard W r := (r.exit alloc W).ret ≠ none
  act r W := (r.exit alloc W).world

variable {w : ℕ} {alloc : Allocator} {W : World}

instance (W : World) (r : Request w) : Decidable ((sysCalls w alloc).guard W r) :=
  inferInstanceAs (Decidable (_ ≠ none))

/-- The address of the second block, once the first is allocated. -/
def secondBlock (alloc : Allocator) (W : World) : ℕ :=
  alloc.place (insert (alloc.place W.live) W.live)

theorem sortWorld_live :
    (sortWorld alloc W).live = insert (secondBlock alloc W) (insert (alloc.place W.live) W.live) :=
  rfl

variable (alloc W) in
theorem secondBlock_fresh : secondBlock alloc W ≠ alloc.place W.live ∧
    secondBlock alloc W ∉ W.live := by
  have h := alloc.fresh (insert (alloc.place W.live) W.live)
  rw [Finset.mem_insert, not_or] at h
  exact h

/-- Freeing the first of the two blocks leaves the second one allocated. -/
theorem sortWorld_kfree_live :
    ((sortWorld alloc W).kfree (alloc.place W.live)).live =
      insert (secondBlock alloc W) W.live := by
  obtain ⟨hne, -⟩ := secondBlock_fresh alloc W
  show (sortWorld alloc W).live.erase _ = _
  rw [sortWorld_live, Finset.erase_insert_of_ne hne, Finset.erase_insert (alloc.fresh _)]

theorem copyOut_live (c : Call w) (e : Answers) (kernelSrc : ℕ) (s : Sorting) :
    (copyOut w W c e kernelSrc s).world.live = (W.kfree kernelSrc).live := by
  unfold copyOut
  split <;> rfl

theorem exit_live_of_allocatesNothing {r : Request w} (h : r.AllocatesNothing) :
    (r.exit alloc W).world.live = W.live := by
  by_cases hn : r.call.size < 256
  · rw [Request.exit, mySort_of_small hn]
    rfl
  · rw [Request.exit, mySort_of_no_src (not_lt.mp hn) (h.resolve_left hn)]
    rfl

/-- Every other call that returns leaves one block more than it found: the second
    one, or the first where there is no second. -/
theorem exit_live_of_allocates {r : Request w} (h : ¬ r.AllocatesNothing)
    (hret : (r.exit alloc W).ret ≠ none) :
    ∃ b, b ∉ W.live ∧ (r.exit alloc W).world.live = insert b W.live := by
  rw [Request.AllocatesNothing, not_or, not_lt, Bool.not_eq_false] at h
  obtain ⟨hn, hs⟩ := h
  have hsecond := (secondBlock_fresh alloc W).2
  cases ht : r.answers.kmallocTemp with
  | false =>
    refine ⟨alloc.place W.live, alloc.fresh _, ?_⟩
    rw [Request.exit, mySort_of_no_temp hn hs ht]
    rfl
  | true =>
    refine ⟨secondBlock alloc W, hsecond, ?_⟩
    cases hc : r.answers.copyFromUser with
    | false =>
      rw [Request.exit, mySort_of_no_copy hn hs ht hc]
      exact sortWorld_kfree_live
    | true =>
      rw [Request.exit, mySort_of_accepted ⟨hn, hs, ht, hc⟩] at hret ⊢
      split at hret
      · exact absurd rfl hret
      · rw [copyOut_live]
        exact sortWorld_kfree_live

/-- One call that returns keeps the set of live blocks exactly when it allocates
    nothing. -/
theorem exit_live_iff {r : Request w} (hret : (r.exit alloc W).ret ≠ none) :
    (r.exit alloc W).world.live = W.live ↔ r.AllocatesNothing := by
  constructor
  · intro hlive
    by_contra h
    obtain ⟨b, hb, hins⟩ := exit_live_of_allocates h hret
    exact hb (hlive ▸ hins ▸ Finset.mem_insert_self b W.live)
  · exact exit_live_of_allocatesNothing

/-- In a sequence of calls every call keeps the set of live blocks exactly when
    every call of the sequence allocates nothing. -/
theorem sysCalls_balanced_iff {rs : List (Request w)} {W W' : World}
    (h : (sysCalls w alloc).Run W rs W') :
    (sysCalls w alloc).Meets (fun W r => ((sysCalls w alloc).act r W).live = W.live) rs W ↔
      ∀ r ∈ rs, r.AllocatesNothing := by
  induction h with
  | nil W => simp [Program.Meets]
  | cons hg _ ih =>
    simp only [Program.Meets, List.forall_mem_cons]
    exact and_congr (exit_live_iff hg) ih

/-- A call of 10 words and a call that gets no first block. -/
theorem sysCalls_balanced_two :
    let W : World := ⟨fun _ => 0, ∅, []⟩
    let rs : List (Request 32) := [⟨⟨0, 10, 0⟩, granted, 0⟩,
      ⟨⟨0, 256, 0⟩, { granted with kmallocSrc := false }, 0⟩]
    (sysCalls 32 firstFree).Meets
      (fun W r => ((sysCalls 32 firstFree).act r W).live = W.live) rs W := by
  intro W rs
  have hrun : (sysCalls 32 firstFree).Run W rs _ :=
    .cons (by decide) (.cons (by decide) (.nil _))
  refine (sysCalls_balanced_iff hrun).mpr fun r hr => ?_
  simp only [rs, List.mem_cons, List.not_mem_nil, or_false] at hr
  rcases hr with rfl | rfl
  · exact Or.inl (by decide)
  · exact Or.inr rfl

/-- A call that sorts 256 words and returns 0 leaves a block behind. -/
theorem sysCalls_leak :
    let W : World := ⟨fun _ => 0, ∅, []⟩
    let r : Request 32 := ⟨⟨0, 256, 0⟩, granted, 256⟩
    (r.exit firstFree W).ret = some 0 ∧
      (sysCalls 32 firstFree).Run W [r] ((sysCalls 32 firstFree).act r W) ∧
      ((sysCalls 32 firstFree).act r W).live ≠ W.live := by
  intro W r
  have hacc : Accepted r.call r.answers := ⟨by decide, rfl, rfl, rfl⟩
  have hret : (r.exit firstFree W).ret = some 0 := by
    obtain ⟨s, hs, -⟩ := exists_sorted firstFree W hacc (by decide) (show 256 ≤ r.fuel from le_rfl)
    rw [Request.exit, hs, copyOut_ret]
    rfl
  have hguard : (r.exit firstFree W).ret ≠ none := by
    rw [hret]
    exact Option.some_ne_none 0
  refine ⟨hret, .cons hguard (.nil _), fun hlive => ?_⟩
  have hnothing := (exit_live_iff hguard).mp hlive
  exact absurd hnothing (by simp [Request.AllocatesNothing, r, granted]; decide)

end Apes.MySort
