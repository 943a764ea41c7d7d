import Apes.Lib.Interleaving
import Apes.MySort.Mergesort

/-!
# `merge` on arbitrary contents

Whether or not its two runs are sorted, `merge` interleaves them. It fills `temp` from
element 0 on without a gap, and reads only what it has filled.
-/

namespace Apes.MySort

open Apes

/-! ## The accesses to `temp` -/

/-- The elements of `temp` that are written, in the order of the writes. -/
def tempStores (trace : List Event) : List ℕ :=
  trace.filterMap fun
    | .tempStore k => some k
    | _ => none

/-- Every element of `temp` is written before it is read. -/
def ReadsWritten (trace : List Event) : Prop :=
  ∀ l l' k, trace = l ++ .tempLoad k :: l' → .tempStore k ∈ l

theorem mem_tempStores {trace : List Event} {k : ℕ} :
    k ∈ tempStores trace ↔ .tempStore k ∈ trace := by
  rw [tempStores, List.mem_filterMap]
  constructor
  · rintro ⟨e, he, hk⟩
    cases e with
    | tempStore m =>
      obtain rfl : m = k := Option.some.inj hk
      exact he
    | _ => cases hk
  · intro h
    exact ⟨_, h, rfl⟩

@[simp] theorem tempStores_append (l l' : List Event) :
    tempStores (l ++ l') = tempStores l ++ tempStores l' := by
  simp [tempStores]

theorem ReadsWritten.of_no_load {trace : List Event} (h : ∀ k, .tempLoad k ∉ trace) :
    ReadsWritten trace := by
  intro l l' k heq
  exact absurd (heq ▸ List.mem_append_right l List.mem_cons_self) (h k)

/-- Reads of what has been written may follow. -/
theorem ReadsWritten.append {trace es : List Event} (h : ReadsWritten trace)
    (hes : ∀ k, .tempLoad k ∈ es → .tempStore k ∈ trace) : ReadsWritten (trace ++ es) := by
  intro l l' k heq
  rcases List.append_eq_append_iff.mp heq with ⟨r, rfl, hr⟩ | ⟨r, htrace, hr⟩
  · have hmem : .tempLoad k ∈ es := hr ▸ List.mem_append_right r List.mem_cons_self
    exact List.mem_append_left r (hes k hmem)
  · cases r with
    | nil =>
      have hmem : .tempLoad k ∈ es := by
        rw [List.nil_append] at hr
        exact hr ▸ List.mem_cons_self
      have hstore := hes k hmem
      rwa [htrace, List.append_nil] at hstore
    | cons e r =>
      obtain ⟨rfl, -⟩ := List.cons.inj hr
      exact h l r k htrace

/-- `temp` has been filled up to `k`, and not read. -/
structure Filling (s : Frame) : Prop where
  stores : tempStores s.trace = List.range s.k
  unread : ∀ k, .tempLoad k ∉ s.trace

namespace Filling

variable {s : Frame} {j1 j2 : ℕ}

theorem compare (h : Filling s) : Filling s.compare where
  stores := by simpa [tempStores] using h.stores
  unread k := by simpa using h.unread k

theorem takeFirst (h : Filling s) : Filling s.takeFirst where
  stores := by
    have hnew : tempStores [.load s.i, .tempStore s.k] = [s.k] := rfl
    rw [Frame.takeFirst_trace, Frame.takeFirst_k, tempStores_append, h.stores, hnew,
      List.range_succ]
  unread k := by simpa using h.unread k

theorem takeSecond (h : Filling s) : Filling s.takeSecond where
  stores := by
    have hnew : tempStores [.load s.j, .tempStore s.k] = [s.k] := rfl
    rw [Frame.takeSecond_trace, Frame.takeSecond_k, tempStores_append, h.stores, hnew,
      List.range_succ]
  unread k := by simpa using h.unread k

theorem mergeBoth (h : Filling s) : Filling (mergeBoth j1 j2 s) := by
  fun_induction MySort.mergeBoth j1 j2 s with
  | case1 s hb hlt ih => exact ih h.compare.takeFirst
  | case2 s hb hlt ih => exact ih h.compare.takeSecond
  | case3 s hb => exact h

theorem drainFirst (h : Filling s) : Filling (drainFirst j1 s) := by
  fun_induction MySort.drainFirst j1 s with
  | case1 s hb ih => exact ih h.takeFirst
  | case2 s hb => exact h

theorem drainSecond (h : Filling s) : Filling (drainSecond j2 s) := by
  fun_induction MySort.drainSecond j2 s with
  | case1 s hb ih => exact ih h.takeSecond
  | case2 s hb => exact h

end Filling

theorem filling_gather (junk a : ℕ → Int32) (i1 j1 i2 j2 : ℕ) :
    Filling (gather junk ⟨a, []⟩ i1 j1 i2 j2) := by
  have hstart : Filling ⟨a, junk, i1, i2, 0, []⟩ := ⟨rfl, by simp⟩
  exact hstart.mergeBoth.drainFirst.drainSecond

/-- The last loop reads the first `n` elements of `temp` and writes none. -/
theorem copyBack_temp {j2 n : ℕ} {s : Frame} (hn : s.j + (j2 + 1 - s.i) ≤ n)
    (hstores : tempStores s.trace = List.range n) (hreads : ReadsWritten s.trace) :
    tempStores (copyBack j2 s).trace = List.range n ∧ ReadsWritten (copyBack j2 s).trace := by
  fun_induction copyBack j2 s with
  | case1 s hb ih =>
    apply ih
    · simp only [Frame.putBack_i, Frame.putBack_j]
      omega
    · simpa [tempStores] using hstores
    · apply hreads.append
      intro k hk
      obtain rfl : k = s.j := by simpa using hk
      rw [← mem_tempStores, hstores, List.mem_range]
      omega
  | case2 s hb => exact ⟨hstores, hreads⟩

/-! ## The result -/

variable {w : ℕ}

/-- `merge` stays in the array and in the 256 elements of `temp`, fills as many elements of
    `temp` as it has to merge and reads no others, and leaves an interleaving of its two runs
    in their place, which is sorted if the two runs are. -/
theorem merge_interleaves (A : Int32Array w) (junk : ℕ → Int32) {i1 j1 i2 j2 : ℕ} (h1 : i1 ≤ j1)
    (hi2 : i2 = j1 + 1) (h2 : i2 ≤ j2) (hlen : j2 < A.length) (htemp : j2 - i1 + 1 ≤ 256) :
    let s' := merge junk ⟨A.mem, []⟩ i1 j1 i2 j2
    let first := slice A.mem i1 (j1 + 1 - i1)
    let second := slice A.mem i2 (j2 + 1 - i2)
    let result := slice s'.a i1 (j2 + 1 - i1)
    (∀ e ∈ s'.trace, e.HeapIn A.length ∧ e.TempIn 256) ∧
      ReadsWritten s'.trace ∧
      tempStores s'.trace = List.range (j2 - i1 + 1) ∧
      Interleaving first second result ∧
      (∀ x, x < i1 ∨ j2 < x → s'.a x = A.mem x) ∧
      (first.Pairwise (· ≤ ·) → second.Pairwise (· ≤ ·) → result.Pairwise (· ≤ ·)) := by
  subst hi2
  intro s' first second result
  have hcount : j2 + 1 - i1 = j2 - i1 + 1 := by omega
  have hsecond : j2 + 1 - (j1 + 1) = j2 - j1 := by omega
  have hmerged : result = merged first second := by
    have hslice : result = merged first (slice A.mem (j1 + 1) (j2 - j1)) :=
      merge_slice (s := ⟨A.mem, []⟩) h1 h2
    rwa [← hsecond] at hslice
  have hwithin : Extends (Event.Within i1 j2 (j2 + 1 - i1)) [] s'.trace :=
    merge_trace le_rfl (by omega) (by omega) le_rfl (by omega) le_rfl
  let g := gather junk ⟨A.mem, []⟩ i1 j1 (j1 + 1) j2
  have hg : Filling g := filling_gather junk A.mem i1 j1 (j1 + 1) j2
  have hk : g.k = j2 - i1 + 1 := (gather_k h1 h2).trans hcount
  have hfilled : tempStores s'.trace = List.range (j2 - i1 + 1) ∧ ReadsWritten s'.trace := by
    apply copyBack_temp (s := { g with i := i1, j := 0 })
    · simp only
      omega
    · rw [← hk]
      exact hg.stores
    · exact .of_no_load hg.unread
  refine ⟨?_, hfilled.2, hfilled.1, ?_, ?_, ?_⟩
  · intro e he
    exact (hwithin.forall_mem e he).in_array hlen (by omega)
  · rw [hmerged]
    exact (Interleaving.merge second first _).symm
  · intro x hx
    exact merge_a_of_outside hx
  · intro hs1 hs2
    rw [hmerged]
    exact merged_sorted hs1 hs2

/-- Two runs that are not sorted. -/
theorem merge_interleaves_unsorted :
    let A : Int32Array 32 := ⟨fun x => [5, -3, 7, -3, 9].getD x 0, 5, by decide⟩
    let s' := merge (fun _ => 0) ⟨A.mem, []⟩ 0 1 2 4
    ReadsWritten s'.trace ∧ tempStores s'.trace = [0, 1, 2, 3, 4] ∧
      Interleaving [5, -3] [7, -3, 9] (slice s'.a 0 5) := by
  intro A s'
  obtain ⟨-, hreads, hstores, hinter, -⟩ := merge_interleaves A (fun _ => 0)
    (show 0 ≤ 1 by decide) (show 2 = 1 + 1 from rfl) (show 2 ≤ 4 by decide) (by decide)
    (by decide)
  exact ⟨hreads, hstores, hinter⟩

end Apes.MySort
