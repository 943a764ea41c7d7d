import Apes.MySort.Syscall

/-!
# What `my_sort` promises its caller

A call whose sizes fit sorts the words of `src_buffer` in decreasing order into
`sorted_buffer`, wherever the two buffers lie; every other call returns the code
of what went wrong.
-/

namespace Apes.MySort

open Apes

/-- The `n` words from `dst` on hold in `m'` the words that `m` holds from `src`
    on, the largest first, and no other word has changed. -/
structure SortedCopy (m m' : ℕ → Int32) (src dst n : ℕ) : Prop where
  perm : (slice m' dst n).Perm (slice m src n)
  sorted : (slice m' dst n).Pairwise (· ≥ ·)
  frame : ∀ x, x < dst ∨ dst + n ≤ x → m' x = m x

variable {w : ℕ} {alloc : Allocator} {fuel : ℕ} {W : World} {c : Call w} {e : Answers}

theorem slice_copiedIn (hfit : 4 * c.size < 2 ^ w) :
    slice (copiedIn W c e).a 0 c.size = slice W.user c.srcBuffer c.size := by
  rw [copiedIn, words_eq hfit, slice_blit]
  exact slice_eq_slice fun k _ => by simp

variable (alloc W) in
/-- The sort of an accepted call whose byte count does not wrap ends. -/
theorem exists_sorted (h : Accepted c e) (hfit : 4 * c.size < 2 ^ w) (hfuel : c.size ≤ fuel) :
    ∃ s, mySort w alloc fuel W c e = copyOut w (sortWorld alloc W) c e (alloc.place W.live) s ∧
      SortedOn (· ≤ ·) (copiedIn W c e).a s.a 0 c.size := by
  have hn := h.size
  obtain ⟨s, hs, hsorted⟩ := mergesort_ok e.stackJunk fuel (copiedIn W c e) (w := w) (i := 0)
    (j := c.size - 1) (Nat.zero_le _) (by omega) (by omega)
  refine ⟨s, by rw [mySort_of_accepted h, hs], ?_⟩
  have hlen : c.size - 1 + 1 - 0 = c.size := by omega
  rwa [hlen] at hsorted

/-- The return value tells whether `copy_to_user` succeeded. -/
theorem copyOut_ret (s : Sorting) (kernelSrc : ℕ) :
    (copyOut w W c e kernelSrc s).ret = some (if e.copyToUser = none then 0 else -EFAULT) := by
  unfold copyOut
  split <;> next h => simp [h]

/-- The reversed array, copied to the user, is the sorted copy of the source. -/
theorem copyOut_sortedCopy {s : Sorting} (hfit : 4 * c.size < 2 ^ w)
    (hs : SortedOn (· ≤ ·) (copiedIn W c e).a s.a 0 c.size) (hto : e.copyToUser = none) :
    SortedCopy W.user (copyOut w (sortWorld alloc W) c e (alloc.place W.live) s).world.user
      c.srcBuffer c.sortedBuffer c.size := by
  have huser : (copyOut w (sortWorld alloc W) c e (alloc.place W.live) s).world.user =
      blit W.user c.sortedBuffer c.size (reverseLoop c.size s.a 0 e.srcJunk s.trace).1 := by
    simp only [copyOut, hto, words_eq hfit]
    rfl
  rw [huser]
  refine ⟨?_, ?_, fun x hx => blit_of_outside _ _ hx⟩
  · rw [slice_blit, slice_reverseLoop, ← slice_copiedIn hfit]
    exact (List.reverse_perm _).trans hs.perm
  · rw [slice_blit, slice_reverseLoop, List.pairwise_reverse]
    exact hs.sorted

/-- The contract of `my_sort` for a `temp` array of `cap` elements. -/
theorem mySort_contract (alloc : Allocator) (fuel cap : ℕ) (W : World) (c : Call w) (e : Answers)
    (hfuel : c.size ≤ fuel) :
    let r := mySort w alloc fuel W c e
    (c.size < 256 → r.ret = some (-EINVAL) ∧ r.world.user = W.user) ∧
    (256 ≤ c.size → e.kmallocSrc = false ∨ e.kmallocTemp = false →
      r.ret = some (-ENOSPC) ∧ r.world.user = W.user) ∧
    (256 ≤ c.size → e.kmallocSrc = true → e.kmallocTemp = true → e.copyFromUser = false →
      r.ret = some (-EFAULT) ∧ r.world.user = W.user) ∧
    (Accepted c e → c.size ≤ cap → 4 * c.size < 2 ^ w →
      (∀ ev ∈ r.trace, ev.TempIn cap ∧ ev.HeapIn c.size) ∧
      (e.copyToUser ≠ none → r.ret = some (-EFAULT)) ∧
      (e.copyToUser = none → r.ret = some 0 ∧
        SortedCopy W.user r.world.user c.srcBuffer c.sortedBuffer c.size)) := by
  intro r
  refine ⟨fun hn => ?_, fun hn hk => ?_, fun hn hs ht hc => ?_, fun h hcap hfit => ⟨?_, ?_, ?_⟩⟩
  · simp only [r, mySort_of_small hn]
    exact ⟨trivial, rfl⟩
  · cases hs : e.kmallocSrc with
    | false =>
      simp only [r, mySort_of_no_src hn hs]
      exact ⟨trivial, rfl⟩
    | true =>
      have ht : e.kmallocTemp = false := hk.resolve_left (by simp [hs])
      simp only [r, mySort_of_no_temp hn hs ht]
      exact ⟨trivial, rfl⟩
  · simp only [r, mySort_of_no_copy hn hs ht hc]
    exact ⟨trivial, rfl⟩
  · intro ev hev
    obtain ⟨hheap, htemp⟩ := trace_bounded h (by omega) ev hev
    refine ⟨?_, hheap⟩
    cases ev with
    | tempLoad k => exact htemp.trans_le hcap
    | tempStore k => exact htemp.trans_le hcap
    | _ => trivial
  · intro hto
    obtain ⟨s, hr, -⟩ := exists_sorted alloc W h hfit hfuel
    simp only [r, hr, copyOut_ret, if_neg hto]
  · intro hto
    obtain ⟨s, hr, hs⟩ := exists_sorted alloc W h hfit hfuel
    simp only [r, hr, copyOut_ret, if_pos hto]
    exact ⟨trivial, copyOut_sortedCopy hfit hs hto⟩

/-- 256 descending words, sorted in place. -/
theorem mySort_contract_in_place :
    let r := mySort 32 firstFree 256 ⟨fun x => -Int32.ofNat x, ∅, []⟩ ⟨0, 256, 0⟩ granted
    r.ret = some 0 ∧ SortedCopy (fun x => -Int32.ofNat x) r.world.user 0 0 256 :=
  ((mySort_contract firstFree 256 256 ⟨fun x => -Int32.ofNat x, ∅, []⟩ (⟨0, 256, 0⟩ : Call 32)
    granted (by decide)).2.2.2 ⟨by decide, rfl, rfl, rfl⟩ (by decide) (by decide)).2.2 rfl

end Apes.MySort
