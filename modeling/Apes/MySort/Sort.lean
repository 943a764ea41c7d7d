import Mathlib.Logic.Function.Basic
import Mathlib.Tactic.Simps.Basic
import Mathlib.Algebra.Order.Group.Nat

/-!
# `merge` and `mergesort`

The two sorting functions of the `my_sort` system call. The array behind the
pointer `a` and the array `temp` of `merge` are functions from indices to
values; every access is recorded in a trace, in the order in which the code
makes it. The code is defined in C as long as the trace stays inside the arrays:
`Event.TempIn` and `Event.HeapIn` say which accesses do.

Indices are natural numbers. The counters of `merge` stay at most one above
their bounds, so a `size_t` counter cannot wrap there; `mergesort` computes
`i+j` and `mid+1`, which can, and its model takes both modulo `2 ^ w`.
-/

namespace Apes.MySort

/-- What the sorting code does to memory, and the calls that it makes. -/
inductive Event
  /-- `mergesort(a, i, j)` is entered. -/
  | call (i j : ℕ)
  /-- `a[x]` is read. -/
  | load (x : ℕ)
  /-- `a[x]` is written. -/
  | store (x : ℕ)
  /-- `temp[k]` is read. -/
  | tempLoad (k : ℕ)
  /-- `temp[k]` is written. -/
  | tempStore (k : ℕ)
  /-- `kernel_src_buffer[x]` is written. -/
  | srcStore (x : ℕ)
  deriving DecidableEq, Repr

/-- The event does not leave a `temp` array of `cap` elements. -/
def Event.TempIn (cap : ℕ) : Event → Prop
  | .tempLoad k | .tempStore k => k < cap
  | _ => True

/-- The event does not leave a kernel buffer of `len` elements. -/
def Event.HeapIn (len : ℕ) : Event → Prop
  | .load x | .store x | .srcStore x => x < len
  | _ => True

instance (cap : ℕ) : DecidablePred (Event.TempIn cap) := fun e => by
  cases e <;> (dsimp only [Event.TempIn]; infer_instance)

instance (len : ℕ) : DecidablePred (Event.HeapIn len) := fun e => by
  cases e <;> (dsimp only [Event.HeapIn]; infer_instance)

/-- The array that is sorted, and what has been done so far. -/
@[ext] structure Sorting where
  a : ℕ → Int32
  trace : List Event

@[simps -fullyApplied] def Sorting.emit (s : Sorting) (e : Event) : Sorting :=
  { s with trace := s.trace ++ [e] }

/-- The arrays and the counters `i`, `j`, `k` of `merge`. -/
structure Frame where
  a : ℕ → Int32
  temp : ℕ → Int32
  i : ℕ
  j : ℕ
  k : ℕ
  trace : List Event

namespace Frame

/-- The operands of `a[i]<a[j]`. -/
@[simps -fullyApplied] def compare (s : Frame) : Frame :=
  { s with trace := s.trace ++ [.load s.i, .load s.j] }

/-- `temp[k++]=a[i++]` -/
@[simps -fullyApplied] def takeFirst (s : Frame) : Frame :=
  { s with
    temp := Function.update s.temp s.k (s.a s.i), i := s.i + 1, k := s.k + 1
    trace := s.trace ++ [.load s.i, .tempStore s.k] }

/-- `temp[k++]=a[j++]` -/
@[simps -fullyApplied] def takeSecond (s : Frame) : Frame :=
  { s with
    temp := Function.update s.temp s.k (s.a s.j), j := s.j + 1, k := s.k + 1
    trace := s.trace ++ [.load s.j, .tempStore s.k] }

/-- `a[i]=temp[j]`, `i++,j++` -/
@[simps -fullyApplied] def putBack (s : Frame) : Frame :=
  { s with
    a := Function.update s.a s.i (s.temp s.j), i := s.i + 1, j := s.j + 1
    trace := s.trace ++ [.tempLoad s.j, .store s.i] }

end Frame

/-- `while(i<=j1 && j<=j2)`: the smaller head goes to `temp`; of equal heads the
    one of the second list goes first. -/
def mergeBoth (j1 j2 : ℕ) (s : Frame) : Frame :=
  if s.i ≤ j1 ∧ s.j ≤ j2 then
    if s.a s.i < s.a s.j then mergeBoth j1 j2 s.compare.takeFirst
    else mergeBoth j1 j2 s.compare.takeSecond
  else s
termination_by (j1 + 1 - s.i) + (j2 + 1 - s.j)
decreasing_by all_goals simp only [Frame.takeFirst, Frame.takeSecond, Frame.compare]; omega

/-- `while(i<=j1)`: the rest of the first list. -/
def drainFirst (j1 : ℕ) (s : Frame) : Frame :=
  if s.i ≤ j1 then drainFirst j1 s.takeFirst else s
termination_by j1 + 1 - s.i
decreasing_by simp only [Frame.takeFirst]; omega

/-- `while(j<=j2)`: the rest of the second list. -/
def drainSecond (j2 : ℕ) (s : Frame) : Frame :=
  if s.j ≤ j2 then drainSecond j2 s.takeSecond else s
termination_by j2 + 1 - s.j
decreasing_by simp only [Frame.takeSecond]; omega

/-- `for(;i<=j2;i++,j++) a[i]=temp[j]` -/
def copyBack (j2 : ℕ) (s : Frame) : Frame :=
  if s.i ≤ j2 then copyBack j2 s.putBack else s
termination_by j2 + 1 - s.i
decreasing_by simp only [Frame.putBack]; omega

/-- The loops of `merge` that fill `temp`. `junk` is what the uninitialised
    array holds on entry. -/
def gather (junk : ℕ → Int32) (s : Sorting) (i1 j1 i2 j2 : ℕ) : Frame :=
  drainSecond j2 (drainFirst j1 (mergeBoth j1 j2 ⟨s.a, junk, i1, i2, 0, s.trace⟩))

/-- `merge(a, i1, j1, i2, j2)` -/
def merge (junk : ℕ → Int32) (s : Sorting) (i1 j1 i2 j2 : ℕ) : Sorting :=
  let f := copyBack j2 { gather junk s i1 j1 i2 j2 with i := i1, j := 0 }
  ⟨f.a, f.trace⟩

/-- `mid=(i+j)/2` in `w`-bit arithmetic. -/
def middle (w i j : ℕ) : ℕ := (i + j) % 2 ^ w / 2

/-- `mid+1` in `w`-bit arithmetic. -/
def afterMiddle (w i j : ℕ) : ℕ := (middle w i j + 1) % 2 ^ w

/-- `mergesort(a, i, j)` with `w`-bit `size_t`. `fuel` bounds the depth of the
    recursion; a run that would go deeper ends with `error`, which holds the
    state it has reached. -/
def mergesort (w : ℕ) (junk : ℕ → Int32) : ℕ → Sorting → ℕ → ℕ → Except Sorting Sorting
  | 0, s, _, _ => .error s
  | fuel + 1, s, i, j =>
    if i < j then do
      let s ← mergesort w junk fuel (s.emit (.call i j)) i (middle w i j)
      let s ← mergesort w junk fuel s (afterMiddle w i j) j
      return merge junk s i (middle w i j) (afterMiddle w i j) j
    else .ok (s.emit (.call i j))

/-- The state in which a run of `mergesort` ends, finished or not. -/
def endState : Except Sorting Sorting → Sorting
  | .error s => s
  | .ok s => s

end Apes.MySort
