import Apes.MySort.HeapBalance

/-!
# The programs that call `my_sort`

`my_sort.c` and `cron.c` fill a buffer with random numbers, have the kernel sort it into a
second one, and write both down. `cron` runs `cron.c` again and again, and each run appends its
report to `cron.txt`.

What `malloc`, `rand` and the kernel answer is a parameter of a run. A program looks at its
null pointers only to print a message, and goes on.
-/

namespace Apes.MySort

open Apes

/-- What ends a program: an access through a null pointer, or to a null stream. -/
inductive Fault
  | store
  | load
  | stream
  deriving DecidableEq, Repr

/-- What a program finds when it runs. Addresses are those of words. -/
structure Surroundings where
  -- the memory of the process, with what the blocks hold when they are allocated
  memory : ℕ → Int32
  -- the results of the two calls of `malloc`
  srcBuffer : Option ℕ
  sortedBuffer : Option ℕ
  -- the results of `rand()`
  rand : ℕ → ℕ
  answers : Answers
  disjoint : ∀ a ∈ srcBuffer, ∀ b ∈ sortedBuffer, a + 256 ≤ b ∨ b + 256 ≤ a

/-- `*(src_buffer + i) = rand()%m` for `i` up to `n` -/
def fill (rand : ℕ → ℕ) (m src n i : ℕ) (memory : ℕ → Int32) : ℕ → Int32 :=
  if i < n then
    fill rand m src n (i + 1) (Function.update memory (src + i) (Int32.ofNat (rand i % m)))
  else memory
termination_by n - i

/-- The numbers that are to be sorted. -/
def numbers (rand : ℕ → ℕ) (m n : ℕ) : List Int32 :=
  (List.range n).map fun i => Int32.ofNat (rand i % m)

/-- The numbers in rows of eight, the first one with the index `i` -/
def rows (i : ℕ) : List Int32 → String
  | [] => ""
  | v :: vs =>
    (if i % 8 = 0 then "\n\r" else "") ++ "\t" ++ toString v.toInt ++ rows (i + 1) vs

section Call

variable {w : ℕ} (hw : 1024 < 2 ^ w) (alloc : Allocator)

/-- The buffer is filled, and `syscall(399,src_buffer,256,sorted_buffer)` is made. -/
def sortNumbers (m src sorted : ℕ) (E : Surroundings) (live : Finset ℕ) (klog : List String) :
    Exit :=
  mySort w alloc 256 ⟨fill E.rand m src 256 0 E.memory, live, klog⟩
    ⟨src, ⟨256, by omega⟩, sorted⟩ E.answers

/-- What `syscall` returns to the program is 0 where the system call does. -/
def statLine (r : Exit) : String :=
  if r.ret = some 0 then "\n\r  Successfully invoked sort system call"
  else "sort System call not invoked properly"

/-- The messages about the results of `malloc`. -/
def mallocLines (E : Surroundings) : String :=
  (if E.srcBuffer = none then "\n\r Source buffer not allocated successfully" else "") ++
    if E.sortedBuffer = none then "\n\rSorted buffer not allocated successfully" else ""

/-- `main` of `my_sort.c`: what it prints, unless it faults, and what it leaves of the kernel. -/
def mySortMain (E : Surroundings) (live : Finset ℕ) (klog : List String) :
    Except Fault String × Finset ℕ × List String :=
  match E.srcBuffer with
  | none => (.error .store, live, klog)
  | some src =>
    let r := sortNumbers hw alloc 1024 src (E.sortedBuffer.getD 0) E live klog
    match E.sortedBuffer with
    | none => (.error .load, r.world.live, r.world.klog)
    | some sorted =>
      (.ok (mallocLines E ++ "\n\rBuffer size = 256" ++ "\n\rInput buffer content is " ++
          rows 0 (numbers E.rand 1024 256) ++ statLine r ++ "\n\rSorted buffer content is: " ++
          rows 0 (slice r.world.user sorted 256)),
        r.world.live, r.world.klog)

end Call

/-! ## `cron.c` -/

/-- One run of `cron.c`. -/
structure CronRun extends Surroundings where
  -- whether `fopen("cron.txt","a+")` succeeds
  fopen : Bool
  pid : ℤ
  uid : ℤ
  -- the result of `ctime`
  date : String

/-- What a run writes to `cron.txt`. -/
structure Report where
  pid : ℤ
  uid : ℤ
  date : String
  input : List Int32
  sorted : List Int32

def Report.text (r : Report) : String :=
  "\n\r" ++ String.ofList (List.replicate 107 '*') ++ "\n\rGetpid=" ++ toString r.pid ++
    " \n\ruserid=" ++ toString r.uid ++ "\n\rCurrent date and time=" ++ r.date ++
    "\n\rBuffer size = 256" ++ "\n\n\rInput buffer content is: " ++ rows 0 r.input ++
    "\n\n\rSorted buffer content is " ++ rows 0 r.sorted

/-- What outlives the runs: the file, and the kernel's heap and log. -/
structure CronState where
  file : String
  live : Finset ℕ
  klog : List String

section Cron

variable {w : ℕ} (hw : 1024 < 2 ^ w) (alloc : Allocator)

/-- `main` of `cron.c`. The report is in the buffer of the stream until `fclose`, and a fault
    before that loses it. -/
def cronMain (E : CronRun) (s : CronState) : Except Fault Report × CronState :=
  match E.srcBuffer with
  | none => (.error .store, s)
  | some src =>
    let r := sortNumbers hw alloc 255 src (E.sortedBuffer.getD 0) E.toSurroundings s.live s.klog
    let s := { s with live := r.world.live, klog := r.world.klog }
    if E.fopen = false then (.error .stream, s)
    else
      match E.sortedBuffer with
      | none => (.error .load, s)
      | some sorted =>
        let report : Report :=
          ⟨E.pid, E.uid, E.date, slice r.world.user src 256, slice r.world.user sorted 256⟩
        (.ok report, { s with file := s.file ++ report.text })

/-- The runs of `cron.c`, one after the other. -/
def cron : Program CronState CronRun where
  init _ := True
  guard _ _ := True
  act E s := (cronMain hw alloc E s).2

end Cron

/-! ## One call -/

theorem fill_apply (rand : ℕ → ℕ) (m src n i : ℕ) (memory : ℕ → Int32) (x : ℕ) :
    fill rand m src n i memory x =
      if src + i ≤ x ∧ x < src + n then Int32.ofNat (rand (x - src) % m) else memory x := by
  fun_induction fill rand m src n i memory with
  | case1 i memory hi ih =>
    rw [ih]
    by_cases hx : x = src + i
    · subst hx
      rw [if_neg (by omega), if_pos (by omega), Function.update_self, Nat.add_sub_cancel_left]
    · rw [Function.update_of_ne hx]
      by_cases hin : src + i ≤ x ∧ x < src + n
      · rw [if_pos (by omega), if_pos hin]
      · rw [if_neg (by omega), if_neg hin]
  | case2 i memory hi => rw [if_neg (by omega)]

theorem slice_fill (rand : ℕ → ℕ) (m src n : ℕ) (memory : ℕ → Int32) :
    slice (fill rand m src n 0 memory) src n = numbers rand m n := by
  apply List.ext_getElem (by simp [numbers])
  intro k hk _
  have hk' : k < n := by simpa using hk
  simp [numbers, fill_apply, hk']

/-- `copy_to_user` writes only to its destination. -/
theorem copyOut_user_of_outside {w : ℕ} {c : Call w} (hfit : 4 * c.size < 2 ^ w) (W : World)
    (e : Answers) (kernelSrc : ℕ) (s : Sorting) {x : ℕ}
    (hx : x < c.sortedBuffer ∨ c.sortedBuffer + c.size ≤ x) :
    (copyOut w W c e kernelSrc s).world.user x = W.user x := by
  simp only [copyOut, words_eq hfit]
  split <;> exact blit_of_outside _ _ hx

/-- The kernel grants the call all that it asks for. -/
structure Answers.Grants (e : Answers) : Prop where
  kmallocSrc : e.kmallocSrc = true
  kmallocTemp : e.kmallocTemp = true
  copyFromUser : e.copyFromUser = true
  copyToUser : e.copyToUser = none

instance (e : Answers) : Decidable e.Grants :=
  decidable_of_iff (e.kmallocSrc = true ∧ e.kmallocTemp = true ∧ e.copyFromUser = true ∧
    e.copyToUser = none) ⟨fun ⟨h1, h2, h3, h4⟩ => ⟨h1, h2, h3, h4⟩,
      fun ⟨h1, h2, h3, h4⟩ => ⟨h1, h2, h3, h4⟩⟩

/-- The numbers `sorted` are the numbers `input`, the largest first. -/
structure Descending (input sorted : List Int32) : Prop where
  perm : sorted.Perm input
  sorted : sorted.Pairwise (· ≥ ·)

section Spec

variable {w : ℕ} (hw : 1024 < 2 ^ w) (alloc : Allocator) {m src sorted : ℕ} {E : Surroundings}
  {live : Finset ℕ} {klog : List String}

/-- What a program finds in its memory after the call. -/
structure Called (r : Exit) (m src sorted : ℕ) (E : Surroundings) : Prop where
  input : slice r.world.user src 256 = numbers E.rand m 256
  granted : r.ret = some 0 ↔ E.answers.Grants
  sorted : r.ret = some 0 → Descending (numbers E.rand m 256) (slice r.world.user sorted 256)

/-- A call that is not accepted fails and leaves the memory of the program as it was. -/
theorem mySort_of_not_accepted {w : ℕ} {alloc : Allocator} {fuel : ℕ} {W : World} {c : Call w}
    {e : Answers} (h : ¬ Accepted c e) :
    ∃ code : ℤ, code ≠ 0 ∧ (mySort w alloc fuel W c e).ret = some code ∧
      (mySort w alloc fuel W c e).world.user = W.user := by
  by_cases hn : c.size < 256
  · rw [mySort_of_small hn]
    exact ⟨-EINVAL, by decide, rfl, rfl⟩
  rw [not_lt] at hn
  cases hs : e.kmallocSrc with
  | false =>
    rw [mySort_of_no_src hn hs]
    exact ⟨-ENOSPC, by decide, rfl, rfl⟩
  | true =>
    cases ht : e.kmallocTemp with
    | false =>
      rw [mySort_of_no_temp hn hs ht]
      exact ⟨-ENOSPC, by decide, rfl, rfl⟩
    | true =>
      cases hc : e.copyFromUser with
      | false =>
        rw [mySort_of_no_copy hn hs ht hc]
        exact ⟨-EFAULT, by decide, rfl, rfl⟩
      | true => exact absurd ⟨hn, hs, ht, hc⟩ h

variable (m src sorted E live klog) in
/-- The call returns: the fuel is enough for 256 numbers. -/
theorem sortNumbers_returns :
    (sortNumbers hw alloc m src sorted E live klog).ret ≠ none := by
  rw [sortNumbers]
  generalize hc : (⟨src, ⟨256, by omega⟩, sorted⟩ : Call w) = c
  have hsize : c.size = 256 := by
    subst hc
    rfl
  by_cases hacc : Accepted c E.answers
  · obtain ⟨s, heq, -⟩ := exists_sorted alloc _ hacc (by omega) (hsize.le : c.size ≤ 256)
    rw [heq, copyOut_ret]
    exact Option.some_ne_none _
  · obtain ⟨code, -, hret, -⟩ := mySort_of_not_accepted hacc
    rw [hret]
    exact Option.some_ne_none _

variable (m src sorted E live klog) in
/-- Where the first block is allocated, one is left behind. -/
theorem sortNumbers_blocks : (sortNumbers hw alloc m src sorted E live klog).world.live.card =
    live.card + if E.answers.kmallocSrc then 1 else 0 := by
  have hret := sortNumbers_returns hw alloc m src sorted E live klog
  let W : World := ⟨fill E.rand m src 256 0 E.memory, live, klog⟩
  let r : Request w := ⟨⟨src, ⟨256, by omega⟩, sorted⟩, E.answers, 256⟩
  cases hsrc : E.answers.kmallocSrc with
  | false =>
    have hnothing : r.AllocatesNothing := Or.inr hsrc
    have heq : (r.exit alloc W).world.live = W.live := exit_live_of_allocatesNothing hnothing
    exact congrArg Finset.card heq
  | true =>
    have hsome : ¬ r.AllocatesNothing := by
      rintro (hsmall | hno)
      · exact absurd hsmall (lt_irrefl 256)
      · exact absurd (hsrc.symm.trans hno) (by decide)
    obtain ⟨b, hb, heq⟩ : ∃ b, b ∉ W.live ∧ (r.exit alloc W).world.live = insert b W.live :=
      exit_live_of_allocates hsome hret
    rw [if_pos rfl, ← Finset.card_insert_of_notMem hb]
    exact congrArg Finset.card heq

theorem sortNumbers_spec (hdisj : src + 256 ≤ sorted ∨ sorted + 256 ≤ src) :
    Called (sortNumbers hw alloc m src sorted E live klog) m src sorted E := by
  have hinput : slice (fill E.rand m src 256 0 E.memory) src 256 = numbers E.rand m 256 :=
    slice_fill E.rand m src 256 E.memory
  rw [sortNumbers]
  generalize hW : (⟨fill E.rand m src 256 0 E.memory, live, klog⟩ : World) = W
  generalize hc : (⟨src, ⟨256, by omega⟩, sorted⟩ : Call w) = c
  have hsize : c.size = 256 := by
    subst hc
    rfl
  have hdst : c.sortedBuffer = sorted := by
    subst hc
    rfl
  have hfit : 4 * c.size < 2 ^ w := by omega
  by_cases hacc : Accepted c E.answers
  · obtain ⟨s, heq, hs⟩ := exists_sorted alloc W hacc hfit (hsize.le : c.size ≤ 256)
    have hret := copyOut_ret (w := w) (W := sortWorld alloc W) (c := c) (e := E.answers) s
      (alloc.place W.live)
    have hgrants : E.answers.copyToUser = none ↔ E.answers.Grants :=
      ⟨fun h => ⟨hacc.kmallocSrc, hacc.kmallocTemp, hacc.copyFromUser, h⟩, fun h => h.copyToUser⟩
    rw [heq]
    refine ⟨?_, ?_, fun hok => ?_⟩
    · rw [← hinput]
      refine slice_congr fun x hx hx' => ?_
      rw [copyOut_user_of_outside hfit _ _ _ _ (by rw [hsize, hdst]; omega), ← hW]
      rfl
    · rw [hret, ← hgrants]
      by_cases hto : E.answers.copyToUser = none
      · simp [hto]
      · simp [hto, EFAULT]
    · have hto : E.answers.copyToUser = none := by
        by_contra hto
        rw [hret, if_neg hto] at hok
        exact absurd (Option.some.inj hok) (by decide)
      obtain ⟨hperm, hsorted, -⟩ := copyOut_sortedCopy hfit hs hto
      rw [hsize] at hperm hsorted
      subst hc hW
      exact ⟨hperm.trans (List.Perm.of_eq hinput), hsorted⟩
  · obtain ⟨code, hcode, hret, huser⟩ : ∃ code : ℤ, code ≠ 0 ∧
        (mySort w alloc 256 W c E.answers).ret = some code ∧
        (mySort w alloc 256 W c E.answers).world.user = W.user := mySort_of_not_accepted hacc
    have hfails : (mySort w alloc 256 W c E.answers).ret ≠ some 0 := by
      rw [hret]
      exact fun h => hcode (Option.some.inj h)
    refine ⟨?_, ?_, fun hok => absurd hok hfails⟩
    · rw [huser, ← hW]
      exact hinput
    · refine iff_of_false hfails fun h => hacc ?_
      exact ⟨hsize.ge, h.kmallocSrc, h.kmallocTemp, h.copyFromUser⟩

/-- `my_sort.c` faults exactly where `malloc` fails. Otherwise it prints its numbers, whether the
    kernel has granted the call, and a second list, which is then the first one in descending
    order. -/
theorem mySortMain_prints (E : Surroundings) (live : Finset ℕ) (klog : List String) :
    ((∃ fault, (mySortMain hw alloc E live klog).1 = .error fault) ↔
      E.srcBuffer = none ∨ E.sortedBuffer = none) ∧
    ∀ text, (mySortMain hw alloc E live klog).1 = .ok text →
      ∃ sorted, (E.answers.Grants → Descending (numbers E.rand 1024 256) sorted) ∧
        text = "\n\rBuffer size = 256" ++ "\n\rInput buffer content is " ++
          rows 0 (numbers E.rand 1024 256) ++
          (if E.answers.Grants then "\n\r  Successfully invoked sort system call"
            else "sort System call not invoked properly") ++
          "\n\rSorted buffer content is: " ++ rows 0 sorted := by
  cases hsrc : E.srcBuffer with
  | none =>
    have hfault : (mySortMain hw alloc E live klog).1 = .error .store := by
      simp only [mySortMain, hsrc]
    refine ⟨iff_of_true ⟨_, hfault⟩ (Or.inl rfl), fun text htext => ?_⟩
    cases hfault.symm.trans htext
  | some src =>
    cases hdst : E.sortedBuffer with
    | none =>
      have hfault : (mySortMain hw alloc E live klog).1 = .error .load := by
        simp only [mySortMain, hsrc, hdst]
      refine ⟨iff_of_true ⟨_, hfault⟩ (Or.inr rfl), fun text htext => ?_⟩
      cases hfault.symm.trans htext
    | some sorted =>
      have hcalled : Called (sortNumbers hw alloc 1024 src sorted E live klog) 1024 src sorted E :=
        sortNumbers_spec hw alloc (E.disjoint src hsrc sorted hdst)
      constructor
      · refine iff_of_false ?_ (by simp)
        rintro ⟨fault, hfault⟩
        simp only [mySortMain, hsrc, hdst] at hfault
        cases hfault
      · intro text htext
        simp only [mySortMain, hsrc, hdst, Except.ok.injEq] at htext
        refine ⟨_, fun hgrants => hcalled.sorted (hcalled.granted.mpr hgrants), ?_⟩
        rw [← htext, mallocLines, if_neg (by simp [hsrc]), if_neg (by simp [hdst])]
        simp only [Option.getD_some, statLine, hcalled.granted, String.append_assoc,
          String.empty_append]

end Spec

/-- Two blocks, numbers, and a kernel that grants everything. -/
def twoBlocks : Surroundings where
  memory _ := 0
  srcBuffer := some 256
  sortedBuffer := some 512
  rand k := 7 * k
  answers := granted
  disjoint a ha b hb := by
    obtain rfl := Option.some.inj ha
    obtain rfl := Option.some.inj hb
    decide

theorem mySortMain_prints_two_blocks :
    ¬ ∃ fault, (mySortMain (w := 32) (by decide) firstFree twoBlocks ∅ []).1 = .error fault := by
  rw [(mySortMain_prints (by decide) firstFree twoBlocks ∅ []).1]
  simp [twoBlocks]

/-! ## All runs of `cron.c` -/

/-- The run gets to its end. -/
def CronRun.Completes (E : CronRun) : Prop :=
  E.srcBuffer ≠ none ∧ E.sortedBuffer ≠ none ∧ E.fopen = true

/-- The run makes a system call that allocates something. -/
def CronRun.Allocates (E : CronRun) : Prop := E.srcBuffer ≠ none ∧ E.answers.kmallocSrc = true

instance : DecidablePred CronRun.Completes := fun _ => inferInstanceAs (Decidable (_ ∧ _ ∧ _))
instance : DecidablePred CronRun.Allocates := fun _ => inferInstanceAs (Decidable (_ ∧ _))

/-- The report of a run. -/
structure CronRun.Wrote (E : CronRun) (r : Report) : Prop where
  caller : r.pid = E.pid ∧ r.uid = E.uid ∧ r.date = E.date
  input : r.input = numbers E.rand 255 256
  sorted : E.answers.Grants → Descending r.input r.sorted

section History

variable {w : ℕ} (hw : 1024 < 2 ^ w) (alloc : Allocator)

/-- One run appends its report if it completes, and leaves a block of the kernel heap behind if
    it allocates one. -/
theorem cronMain_spec (E : CronRun) (s : CronState) :
    (E.Completes → ∃ r : Report,
      (cronMain hw alloc E s).2.file = s.file ++ r.text ∧ E.Wrote r) ∧
    (¬ E.Completes → (cronMain hw alloc E s).2.file = s.file) ∧
    (cronMain hw alloc E s).2.live.card = s.live.card + if E.Allocates then 1 else 0 := by
  cases hsrc : E.srcBuffer with
  | none =>
    have heq : cronMain hw alloc E s = (.error .store, s) := by simp only [cronMain, hsrc]
    have hno : ¬ E.Completes := fun h => h.1 hsrc
    have hnone : ¬ E.Allocates := fun h => h.1 hsrc
    rw [heq, if_neg hnone]
    exact ⟨fun h => absurd h hno, fun _ => rfl, rfl⟩
  | some src =>
    have hlive : (cronMain hw alloc E s).2.live = (sortNumbers hw alloc 255 src
        (E.sortedBuffer.getD 0) E.toSurroundings s.live s.klog).world.live := by
      simp only [cronMain, hsrc]
      split_ifs
      · rfl
      · cases E.sortedBuffer <;> rfl
    have hblocks : (cronMain hw alloc E s).2.live.card =
        s.live.card + if E.Allocates then 1 else 0 := by
      rw [hlive, sortNumbers_blocks]
      simp [CronRun.Allocates, hsrc]
    cases hfopen : E.fopen with
    | false =>
      have hno : ¬ E.Completes := fun h => absurd (hfopen.symm.trans h.2.2) (by decide)
      refine ⟨fun h => absurd h hno, fun _ => ?_, hblocks⟩
      simp only [cronMain, hsrc, hfopen, if_true]
    | true =>
      cases hdst : E.sortedBuffer with
      | none =>
        refine ⟨fun h => absurd hdst h.2.1, fun _ => ?_, hblocks⟩
        simp only [cronMain, hsrc, hfopen, hdst, Bool.true_eq_false, if_false]
      | some sorted =>
        have hcalled : Called (sortNumbers hw alloc 255 src sorted E.toSurroundings s.live s.klog)
            255 src sorted E.toSurroundings :=
          sortNumbers_spec hw alloc (E.disjoint src hsrc sorted hdst)
        let user := (sortNumbers hw alloc 255 src sorted E.toSurroundings s.live s.klog).world.user
        refine ⟨fun _ => ⟨⟨E.pid, E.uid, E.date, slice user src 256, slice user sorted 256⟩, ?_,
            ⟨rfl, rfl, rfl⟩, hcalled.input, fun hgrants => ?_⟩,
          fun hno => absurd ⟨by simp [hsrc], by simp [hdst], hfopen⟩ hno, hblocks⟩
        · simp only [cronMain, hsrc, hfopen, hdst, Bool.true_eq_false, if_false, Option.getD_some]
          rfl
        · show Descending (slice user src 256) (slice user sorted 256)
          rw [hcalled.input]
          exact hcalled.sorted (hcalled.granted.mpr hgrants)

/-- Whatever `malloc`, `fopen` and the kernel answer to the runs of `cron.c`: `cron.txt` is what it
    was, followed by one report for each run that completed, in their order. A report shows
    the numbers of its run, and behind them, if the kernel granted the call, the same numbers
    in descending order. The kernel loses one block with each call that allocates any. -/
theorem cron_history {s s' : CronState} {Es : List CronRun}
    (hrun : (cron hw alloc).Run s Es s') :
    (∃ reports : List Report, s'.file = (reports.map Report.text).foldl (· ++ ·) s.file ∧
      List.Forall₂ CronRun.Wrote (Es.filter fun E => E.Completes) reports) ∧
    s'.live.card = s.live.card + Es.countP fun E => E.Allocates := by
  induction hrun with
  | nil => exact ⟨⟨[], rfl, .nil⟩, rfl⟩
  | @cons s s' E Es _ _ ih =>
    obtain ⟨hcomplete, hfault, hblocks⟩ := cronMain_spec hw alloc E s
    obtain ⟨⟨reports, hfile, hwrote⟩, hlive⟩ := ih
    constructor
    · by_cases hE : E.Completes
      · obtain ⟨r, hr, hwr⟩ := hcomplete hE
        refine ⟨r :: reports, ?_, ?_⟩
        · rw [hfile, List.map_cons, List.foldl_cons, ← hr]
          rfl
        · rw [List.filter_cons_of_pos (by simpa using hE)]
          exact .cons hwr hwrote
      · refine ⟨reports, ?_, ?_⟩
        · rw [hfile, ← hfault hE]
          rfl
        · rw [List.filter_cons_of_neg (by simpa using hE)]
          exact hwrote
    · rw [hlive, List.countP_cons]
      have hcard : ((cron hw alloc).act E s).live.card = _ := hblocks
      rw [hcard]
      by_cases hE : E.Allocates
      · simp [hE]
        omega
      · simp [hE]

end History

/-- A run in which everything is granted. -/
def firstRun : CronRun :=
  { twoBlocks with fopen := true, pid := 101, uid := 0, date := "Sun Feb 10 12:00:00 2019\n" }

theorem cron_history_first_run :
    let s : CronState := ⟨"", ∅, []⟩
    let s' := (cron (w := 32) (by decide) firstFree).act firstRun s
    (∃ reports : List Report, s'.file = (reports.map Report.text).foldl (· ++ ·) "" ∧
      List.Forall₂ CronRun.Wrote [firstRun] reports) ∧ s'.live.card = 1 := by
  intro s s'
  have hrun : (cron (w := 32) (by decide) firstFree).Run s [firstRun] s' := .cons trivial (.nil _)
  obtain ⟨⟨reports, hfile, hwrote⟩, hlive⟩ := cron_history (by decide) firstFree hrun
  have hcompletes : [firstRun].filter (fun E => decide E.Completes) = [firstRun] := by
    simp [CronRun.Completes, firstRun, twoBlocks]
  rw [hcompletes] at hwrote
  exact ⟨⟨reports, hfile, hwrote⟩, hlive⟩

end Apes.MySort
