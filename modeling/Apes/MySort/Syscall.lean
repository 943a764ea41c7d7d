import Apes.MySort.Mergesort
import Mathlib.Data.Finset.Basic
import Mathlib.Data.Fintype.EquivFin

/-!
# The `my_sort` system call

`SYSCALL_DEFINE3(my_sort, src_buffer, buffer_size, sorted_buffer)` on a model
of what it touches: user memory as a map from word addresses to words, the
kernel heap as the set of the blocks that are allocated, and the kernel log.
What the kernel answers (whether `kmalloc` and the user copies succeed, and what
uninitialised memory holds) is a parameter of the call.
-/

namespace Apes.MySort

open Apes

def EINVAL : ℤ := 22
def ENOSPC : ℤ := 28
def EFAULT : ℤ := 14

/-- The choice that `kmalloc` makes of an address for a new block. -/
structure Allocator where
  place : Finset ℕ → ℕ
  fresh : ∀ live, place live ∉ live

/-- The allocator that takes the first free address. -/
def firstFree : Allocator where
  place live := Nat.find (Infinite.exists_notMem_finset live)
  fresh live := Nat.find_spec (Infinite.exists_notMem_finset live)

/-- The memory that outlives a call. -/
structure World where
  user : ℕ → Int32
  live : Finset ℕ
  klog : List String

namespace World

def printk (W : World) (text : String) : World := { W with klog := W.klog ++ [text] }

def kmalloc (W : World) (addr : ℕ) : World := { W with live := insert addr W.live }

def kfree (W : World) (addr : ℕ) : World := { W with live := W.live.erase addr }

end World

/-- The arguments of a call; `size_t` has `w` bits. -/
structure Call (w : ℕ) where
  srcBuffer : ℕ
  bufferSize : Fin (2 ^ w)
  sortedBuffer : ℕ

/-- The number of words, `buffer_size`. -/
def Call.size {w : ℕ} (c : Call w) : ℕ := c.bufferSize

/-- What the kernel answers during a call. -/
structure Answers where
  -- whether the two calls of `kmalloc` return a block
  kmallocSrc : Bool
  kmallocTemp : Bool
  -- whether `copy_from_user` returns 0
  copyFromUser : Bool
  -- `none`: `copy_to_user` returns 0; `some left`: it fails, and `left` is what it
  -- leaves in the destination
  copyToUser : Option (ℕ → Int32)
  -- the uninitialised contents of the two blocks and of `temp` in `merge`
  srcJunk : ℕ → Int32
  tempJunk : ℕ → Int32
  stackJunk : ℕ → Int32

/-- Every request is granted, and memory that nothing was written to is zero. -/
def granted : Answers where
  kmallocSrc := true
  kmallocTemp := true
  copyFromUser := true
  copyToUser := none
  srcJunk _ := 0
  tempJunk _ := 0
  stackJunk _ := 0

/-- How far a call has come. `ret` is its return value, or `none` when `mergesort`
    needs more fuel. -/
structure Exit where
  ret : Option ℤ
  world : World
  trace : List Event

/-- `sizeof(int32_t)*buffer_size` in `w`-bit arithmetic. -/
def byteCount (w n : ℕ) : ℕ := 4 * n % 2 ^ w

theorem words_eq {w n : ℕ} (h : 4 * n < 2 ^ w) : byteCount w n / 4 = n := by
  rw [byteCount, Nat.mod_eq_of_lt h]
  omega

/-- The loop that fills `kernel_src_buffer` from the back of the sorted array. -/
def reverseLoop (n : ℕ) (a : ℕ → Int32) (i : ℕ) (src : ℕ → Int32) (trace : List Event) :
    (ℕ → Int32) × List Event :=
  if i < n then
    reverseLoop n a (i + 1) (Function.update src i (a (n - 1 - i)))
      (trace ++ [.load (n - 1 - i), .srcStore i])
  else (src, trace)
termination_by n - i

/-- From the end of `mergesort` to the return: the reversal, `copy_to_user`, and
    the `kfree` of `kernel_src_buffer`. -/
def copyOut (w : ℕ) (W : World) (c : Call w) (e : Answers) (kernelSrc : ℕ) (s : Sorting) : Exit :=
  let n := c.size
  let words := byteCount w n / 4
  let r := reverseLoop n s.a 0 e.srcJunk s.trace
  match e.copyToUser with
  | some left =>
    let W := { W with user := blit W.user c.sortedBuffer words left }
    ⟨some (-EFAULT), (W.printk "Copy from kernel space to user space failed").kfree kernelSrc, r.2⟩
  | none =>
    let W := { W with user := blit W.user c.sortedBuffer words r.1 }
    ⟨some 0, (W.kfree kernelSrc).printk "my_sort() exit", r.2⟩

/-- `my_sort(src_buffer, buffer_size, sorted_buffer)` -/
def mySort (w : ℕ) (alloc : Allocator) (fuel : ℕ) (W : World) (c : Call w) (e : Answers) : Exit :=
  let n := c.size
  if n < 256 then ⟨some (-EINVAL), W.printk "Buffer size less than 256", []⟩
  else
    let W := W.printk "my_sort() entry"
    if e.kmallocSrc = false then
      ⟨some (-ENOSPC),
        W.printk "Kernel source buffer allocation on heap not successfully", []⟩
    else
      let kernelSrc := alloc.place W.live
      let W := W.kmalloc kernelSrc
      if e.kmallocTemp = false then
        ⟨some (-ENOSPC),
          W.printk "Temporary Kernel source buffer allocation on heap not successfully", []⟩
      else
        let W := W.kmalloc (alloc.place W.live)
        if e.copyFromUser = false then
          ⟨some (-EFAULT),
            (W.printk "Copy from user to kernel space failed").kfree kernelSrc, []⟩
        else
          let words := byteCount w n / 4
          let a := blit e.tempJunk 0 words fun k => W.user (c.srcBuffer + k)
          match mergesort w e.stackJunk fuel ⟨a, []⟩ 0 (n - 1) with
          | .error s => ⟨none, W, s.trace⟩
          | .ok s => copyOut w W c e kernelSrc s

/-! ## The paths through a call -/

variable {w : ℕ} {alloc : Allocator} {fuel : ℕ} {W : World} {c : Call w} {e : Answers}

/-- The call passes the size check, and both `kmalloc`s and `copy_from_user`
    succeed. -/
structure Accepted (c : Call w) (e : Answers) : Prop where
  size : 256 ≤ c.size
  kmallocSrc : e.kmallocSrc = true
  kmallocTemp : e.kmallocTemp = true
  copyFromUser : e.copyFromUser = true

/-- The world in which an accepted call sorts: two blocks more are allocated. -/
def sortWorld (alloc : Allocator) (W : World) : World :=
  let W := W.printk "my_sort() entry"
  let W := W.kmalloc (alloc.place W.live)
  W.kmalloc (alloc.place W.live)

/-- What `temp_kernel_src_buffer` holds before it is sorted. -/
def copiedIn (W : World) (c : Call w) (e : Answers) : Sorting :=
  ⟨blit e.tempJunk 0 (byteCount w c.size / 4) fun k => W.user (c.srcBuffer + k), []⟩

theorem mySort_of_small (h : c.size < 256) : mySort w alloc fuel W c e =
    ⟨some (-EINVAL), W.printk "Buffer size less than 256", []⟩ := by
  rw [mySort, if_pos h]

theorem mySort_of_no_src (h : 256 ≤ c.size) (hs : e.kmallocSrc = false) :
    mySort w alloc fuel W c e = ⟨some (-ENOSPC), (W.printk "my_sort() entry").printk
      "Kernel source buffer allocation on heap not successfully", []⟩ := by
  rw [mySort, if_neg (by omega), if_pos hs]

theorem mySort_of_no_temp (h : 256 ≤ c.size) (hs : e.kmallocSrc = true)
    (ht : e.kmallocTemp = false) :
    mySort w alloc fuel W c e = ⟨some (-ENOSPC),
      ((W.printk "my_sort() entry").kmalloc (alloc.place W.live)).printk
      "Temporary Kernel source buffer allocation on heap not successfully", []⟩ := by
  rw [mySort, if_neg (by omega), if_neg (by simp [hs]), if_pos ht]
  rfl

theorem mySort_of_no_copy (h : 256 ≤ c.size) (hs : e.kmallocSrc = true)
    (ht : e.kmallocTemp = true) (hc : e.copyFromUser = false) :
    mySort w alloc fuel W c e = ⟨some (-EFAULT),
      ((sortWorld alloc W).printk "Copy from user to kernel space failed").kfree
        (alloc.place W.live), []⟩ := by
  rw [mySort, if_neg (by omega), if_neg (by simp [hs]), if_neg (by simp [ht]), if_pos hc]
  rfl

theorem mySort_of_accepted (h : Accepted c e) :
    mySort w alloc fuel W c e =
      match mergesort w e.stackJunk fuel (copiedIn W c e) 0 (c.size - 1) with
      | .error s => ⟨none, sortWorld alloc W, s.trace⟩
      | .ok s => copyOut w (sortWorld alloc W) c e (alloc.place W.live) s := by
  obtain ⟨hn, hs, ht, hc⟩ := h
  rw [mySort, if_neg (by omega), if_neg (by simp [hs]), if_neg (by simp [ht]),
    if_neg (by simp [hc])]
  rfl

theorem trace_eq_nil (h : ¬ Accepted c e) : (mySort w alloc fuel W c e).trace = [] := by
  by_cases hn : c.size < 256
  · rw [mySort_of_small hn]
  rw [not_lt] at hn
  cases hs : e.kmallocSrc with
  | false => rw [mySort_of_no_src hn hs]
  | true =>
    cases ht : e.kmallocTemp with
    | false => rw [mySort_of_no_temp hn hs ht]
    | true =>
      cases hc : e.copyFromUser with
      | false => rw [mySort_of_no_copy hn hs ht hc]
      | true => exact absurd ⟨hn, hs, ht, hc⟩ h

/-! ## The reversal -/

theorem reverseLoop_fst (n : ℕ) (a : ℕ → Int32) (i : ℕ) (src : ℕ → Int32) (trace : List Event)
    (x : ℕ) : (reverseLoop n a i src trace).1 x =
      if i ≤ x ∧ x < n then a (n - 1 - x) else src x := by
  fun_induction reverseLoop n a i src trace with
  | case1 i src trace h ih =>
    rw [ih]
    by_cases hx : x = i
    · subst hx
      simp [h]
    · rw [Function.update_of_ne hx]
      by_cases hx' : i + 1 ≤ x ∧ x < n
      · rw [if_pos hx', if_pos ⟨by omega, hx'.2⟩]
      · rw [if_neg hx', if_neg (by omega)]
  | case2 i src trace h => rw [if_neg (by omega)]

/-- After the loop `kernel_src_buffer` holds the sorted array from its back. -/
theorem slice_reverseLoop (n : ℕ) (a src : ℕ → Int32) (trace : List Event) :
    slice (reverseLoop n a 0 src trace).1 0 n = (slice a 0 n).reverse := by
  rw [← slice_reverse]
  refine slice_congr fun x _ hx => ?_
  rw [reverseLoop_fst, if_pos (by omega)]

/-- An access of the reversal loop to one of the two kernel buffers. -/
def Event.Reversal (n : ℕ) : Event → Prop
  | .load x | .srcStore x => x < n
  | _ => False

theorem reverseLoop_trace (n : ℕ) (a : ℕ → Int32) (i : ℕ) (src : ℕ → Int32)
    (trace : List Event) :
    Extends (Event.Reversal n) trace (reverseLoop n a i src trace).2 := by
  fun_induction reverseLoop n a i src trace with
  | case1 i src trace h ih =>
    refine Extends.trans (Extends.append trace ?_) ih
    intro ev hev
    simp only [List.mem_cons, List.not_mem_nil, or_false] at hev
    rcases hev with rfl | rfl
    · show n - 1 - i < n
      omega
    · exact h
  | case2 i src trace h => exact Extends.refl _ trace

theorem copyOut_trace (W : World) (kernelSrc : ℕ) (s : Sorting) :
    (copyOut w W c e kernelSrc s).trace = (reverseLoop c.size s.a 0 e.srcJunk s.trace).2 := by
  unfold copyOut
  split <;> rfl

/-- The accesses of an accepted call: those of `mergesort`, and, where it ends,
    those of the reversal. -/
theorem trace_of_accepted (h : Accepted c e) :
    Extends (Event.Reversal c.size)
      (endState (mergesort w e.stackJunk fuel (copiedIn W c e) 0 (c.size - 1))).trace
      (mySort w alloc fuel W c e).trace := by
  rw [mySort_of_accepted h]
  cases hs : mergesort w e.stackJunk fuel (copiedIn W c e) 0 (c.size - 1) with
  | error s => exact Extends.refl _ _
  | ok s =>
    simp only [copyOut_trace]
    exact reverseLoop_trace _ _ _ _ _

/-- Where the indices of `mergesort` do not wrap, an accepted call stays inside
    the first `buffer_size` elements of the kernel buffers and of `temp`. -/
theorem trace_bounded (h : Accepted c e) (hw : 2 * c.size ≤ 2 ^ w) :
    ∀ ev ∈ (mySort w alloc fuel W c e).trace, ev.HeapIn c.size ∧ ev.TempIn c.size := by
  intro ev hev
  have hn := h.size
  have hsort : Extends (Event.Within 0 (c.size - 1) (c.size - 1 + 1 - 0)) []
      (endState (mergesort w e.stackJunk fuel (copiedIn W c e) 0 (c.size - 1))).trace :=
    mergesort_trace (Nat.zero_le _) (by omega)
  rcases (trace_of_accepted h).mem hev with hev | hev
  · exact (hsort.forall_mem ev hev).in_array (by omega) (by omega)
  · cases ev <;> simp_all [Event.Reversal, Event.HeapIn, Event.TempIn]

end Apes.MySort
