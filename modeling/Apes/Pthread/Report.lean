import Apes.Pthread.Children

/-!
# The report of `child1_thread_callback`

Behind `Processed data:` the thread logs the letters that `count_array` has at most 100 of.
The comment at the loop speaks of the letters that occur less than 100 times.
-/

namespace Apes.Pthread

open Apes

variable {t : CharType} {text : List UInt8} {s : State} {a : Action}

/-- The letters at the front of the messages, with their numbers. -/
def leadingLetters : List Message → List (ℕ × ℤ)
  | .letter i n :: log => (i, n.toInt) :: leadingLetters log
  | _ => []

/-- What the log lists behind the first `Processed data:`. -/
def processedLine : List Message → List (ℕ × ℤ)
  | [] => []
  | m :: log => if m = .processedData then leadingLetters log else processedLine log

/-- The list the comment asks for: the letters that occur less than 100 times, with their
    numbers. -/
def rareLetters (text : List UInt8) : List (ℕ × ℤ) :=
  ((List.finRange 26).filter fun k => letterCount k text < 100).map fun k =>
    (k.val, letterCount k text)

/-- The list the loop makes of the `int`s. -/
def reportedLetters (text : List UInt8) : List (ℕ × ℤ) :=
  ((List.finRange 26).filter fun k => Int32.ofNat (letterCount k text) ≤ 100).map fun k =>
    (k.val, (Int32.ofNat (letterCount k text)).toInt)

/-- The threads while no `SIGUSR2` is delivered. -/
def quiet (t : CharType) (text : List UInt8) : Program State Action :=
  (program t text).restrict fun _ a => a ≠ .usr2

/-! ## What the two loops leave behind -/

/-- The message of the report loop about the letter `i`. -/
def reportOf (a : CountArray) (i : ℕ) : Option Message :=
  match a[i]? with
  | some n => if n ≤ 100 then some (.letter i n) else none
  | none => none

/-- The messages about the letters before `i`. -/
def reportUpTo (a : CountArray) (i : ℕ) : List Message := (List.range i).filterMap (reportOf a)

/-- The letters before `i` have been counted, or reported. -/
def Child1.Progress (text : List UInt8) (c : Child1) : Prop :=
  match c.pc with
  | .entry => c.log = []
  | .chars => c.str = text ∧ c.i ≤ text.length ∧ c.countArray = tally (text.take c.i) ∧
      c.log = [.entering]
  | .report => c.i ≤ 26 ∧ c.countArray = tally text ∧
      c.log = [.entering, .processedData] ++ reportUpTo (tally text) c.i
  | .killed => True
  | .done => c.log = [.entering, .processedData] ++ reportUpTo (tally text) 26 ++
      [.afterCompleting]

theorem reportUpTo_succ (a : CountArray) (i : ℕ) :
    reportUpTo a (i + 1) = reportUpTo a i ++ (reportOf a i).toList := by
  rw [reportUpTo, List.range_succ, List.filterMap_append]
  cases h : reportOf a i <;> simp [reportUpTo, h]

theorem Child1.report_log (c : Child1) :
    c.report.log = c.log ++ (reportOf c.countArray c.i).toList := by
  unfold Child1.report reportOf
  cases c.countArray[c.i]? with
  | none => exact (List.append_nil _).symm
  | some n =>
    dsimp only
    split
    · rfl
    · exact (List.append_nil _).symm

theorem Child1.Progress.enter {c : Child1} (hpc : c.pc = .entry) (h : c.Progress text) :
    (c.enter text).Progress text := by
  rw [Child1.Progress, hpc] at h
  refine ⟨rfl, Nat.zero_le _, tally_nil.symm, ?_⟩
  simp [Child1.enter, h]

theorem Child1.Progress.count {c : Child1} {countArray : CountArray} (hpc : c.pc = .chars)
    (hcount : c.str[c.i]?.map (countChar t c.countArray) = some (.ok countArray))
    (h : c.Progress text) : (c.count countArray).Progress text := by
  simp only [Child1.Progress, Child1.count, hpc] at h ⊢
  obtain ⟨hstr, -, harr, hlog⟩ := h
  rw [hstr, harr, Option.map_eq_some_iff] at hcount
  obtain ⟨b, hb, hcount⟩ := hcount
  obtain ⟨hi, rfl⟩ := List.getElem?_eq_some_iff.mp hb
  rw [countChar_tally, List.take_concat_get' text c.i hi] at hcount
  exact ⟨hstr, hi, (Except.ok.inj hcount).symm, hlog⟩

theorem Child1.Progress.processed {c : Child1} (hpc : c.pc = .chars)
    (hi : c.str.length ≤ c.i) (h : c.Progress text) : c.processed.Progress text := by
  rw [Child1.Progress, hpc] at h
  obtain ⟨hstr, -, harr, hlog⟩ := h
  rw [hstr] at hi
  refine ⟨Nat.zero_le _, ?_, ?_⟩
  · rw [Child1.processed, harr, List.take_of_length_le hi]
  · simp [Child1.processed, hlog, reportUpTo]

theorem Child1.Progress.report {c : Child1} (hpc : c.pc = .report) (hi : c.i < 26)
    (h : c.Progress text) : c.report.Progress text := by
  have hlog := c.report_log
  simp only [Child1.Progress, hpc] at h
  obtain ⟨-, harr, hlog'⟩ := h
  have hpc' : c.report.pc = .report := hpc
  rw [Child1.Progress, hpc']
  refine ⟨hi, harr, ?_⟩
  rw [hlog, hlog', harr, List.append_assoc]
  exact congrArg _ (reportUpTo_succ _ _).symm

theorem Child1.Progress.finish {c : Child1} (hpc : c.pc = .report) (hi : 26 ≤ c.i)
    (h : c.Progress text) : c.finish.Progress text := by
  simp only [Child1.Progress, hpc] at h
  obtain ⟨hle, -, hlog⟩ := h
  rw [Nat.le_antisymm hle hi] at hlog
  exact congrArg (· ++ [Message.afterCompleting]) hlog

/-- Every step of the two threads keeps what the loops have left behind. -/
theorem progress_act (hg : guard t s a) (h : s.child1.Progress text) :
    (act text a s).child1.Progress text := by
  cases a with
  | open1 => exact h.enter hg
  | char1 => exact h.count hg.1 hg.2.2
  | processed1 => exact h.processed hg.1 hg.2
  | report1 => exact h.report hg.1 hg.2.2
  | kill1 => exact trivial
  | finish1 => exact h.finish hg.1 hg.2
  | _ => exact h

theorem progress_of_reachable (hs : (program t text).Reachable s) : s.child1.Progress text := by
  refine hs.invariant (I := fun s => s.child1.Progress text) ?_ fun s a _ h hg => ?_
  · rintro s ⟨cpu, rfl⟩
    exact rfl
  · exact progress_act hg h

/-! ## The line in the log -/

theorem leadingLetters_report (a : CountArray) (ks : List (Fin 26)) :
    leadingLetters (ks.filterMap (fun k : Fin 26 => reportOf a k.val) ++ [.afterCompleting]) =
      (ks.filter fun k => a[k] ≤ 100).map fun k => (k.val, a[k].toInt) := by
  induction ks with
  | nil => rfl
  | cons k ks ih =>
    have hk : reportOf a k.val = if a[k] ≤ 100 then some (.letter k a[k]) else none := by
      simp [reportOf]
    by_cases hle : a[k] ≤ 100
    · rw [if_pos hle] at hk
      simp only [List.filterMap_cons, hk, List.cons_append, leadingLetters, ih]
      rw [List.filter_cons_of_pos (by simpa using hle), List.map_cons]
    · rw [if_neg hle] at hk
      simp only [List.filterMap_cons, hk, ih]
      rw [List.filter_cons_of_neg (by simpa using hle)]

theorem processedLine_entering (log : List Message) :
    processedLine ([.entering, .processedData] ++ log) = leadingLetters log := rfl

/-- A thread that has completed its work has logged the letters that the `int`s say there
    are at most 100 of. -/
theorem processedLine_of_done {c : Child1} (h : c.Progress text) (hpc : c.pc = .done) :
    processedLine c.log = reportedLetters text := by
  rw [Child1.Progress, hpc] at h
  rw [h, List.append_assoc, processedLine_entering, reportUpTo,
    ← List.map_coe_finRange_eq_range, List.filterMap_map]
  refine (leadingLetters_report (tally text) (List.finRange 26)).trans ?_
  simp [reportedLetters]

/-- Two lists that pair keys with values are the same where they have the same keys with the
    same values. -/
theorem map_filter_eq_iff {α β γ : Type*} {key : α → β} (hkey : Function.Injective key)
    {l : List α} {p q : α → Bool} {f g : α → γ} :
    ((l.filter p).map fun a => (key a, f a)) = ((l.filter q).map fun a => (key a, g a)) ↔
      ∀ a ∈ l, p a = q a ∧ (q a → f a = g a) := by
  constructor
  · intro h a ha
    have hmem : ∀ v, (p a ∧ f a = v) ↔ (q a ∧ g a = v) := by
      intro v
      have hv := congrArg (fun l => (key a, v) ∈ l) h
      simpa [hkey.eq_iff, ha] using hv
    have hpq : p a = q a := by
      rw [Bool.eq_iff_iff]
      exact ⟨fun hp => ((hmem _).mp ⟨hp, rfl⟩).1, fun hq => ((hmem _).mpr ⟨hq, rfl⟩).1⟩
    exact ⟨hpq, fun hq => ((hmem _).mpr ⟨hq, rfl⟩).2⟩
  · intro h
    rw [List.filter_congr fun a ha => (h a ha).1]
    refine List.map_congr_left fun a ha => ?_
    rw [List.mem_filter] at ha
    rw [(h a ha.1).2 ha.2]

/-! ## Without the signal -/

/-- The thread has not been told to exit. -/
def Undisturbed (s : State) : Prop := s.flag2 = false ∧ s.child1.pc ≠ .killed

theorem undisturbed_of_reachable (hs : (quiet t text).Reachable s) : Undisturbed s := by
  refine hs.invariant ?_ fun s a _ h hg => ?_
  · rintro s ⟨cpu, rfl⟩
    exact ⟨rfl, nofun⟩
  · obtain ⟨hg, hquiet⟩ := hg
    obtain ⟨hflag, hpc⟩ := h
    cases a with
    | open1 | processed1 | finish1 => exact ⟨hflag, nofun⟩
    | kill1 => exact absurd (hflag.symm.trans hg.2) (by decide)
    | leave2 => exact ⟨rfl, hpc⟩
    | usr2 => exact absurd rfl hquiet
    | _ => exact ⟨hflag, hpc⟩

/-- How many steps the thread still makes. -/
def Child1.stepsLeft (text : List UInt8) (c : Child1) : ℕ :=
  match c.pc with
  | .entry => text.length + 30
  | .chars => text.length - c.i + 29
  | .report => 27 - c.i
  | .killed | .done => 0

/-- Until it is done, the thread can make a step. -/
theorem done_or_step (hs : (quiet t text).Reachable s) :
    s.child1.pc = .done ∨ ∃ a, (quiet t text).guard s a ∧
      (quiet t text).Reachable ((quiet t text).act a s) ∧
      ((quiet t text).act a s).child1.stepsLeft text < s.child1.stepsLeft text := by
  have hprog := progress_of_reachable hs.of_restrict
  obtain ⟨hflag, hkilled⟩ := undisturbed_of_reachable hs
  -- a step is named by its action, its guard and the fall of the number of steps left
  have hstep : ∀ a, guard t s a → a ≠ .usr2 →
      (act text a s).child1.stepsLeft text < s.child1.stepsLeft text →
      ∃ a, (quiet t text).guard s a ∧ (quiet t text).Reachable ((quiet t text).act a s) ∧
        ((quiet t text).act a s).child1.stepsLeft text < s.child1.stepsLeft text :=
    fun a hg ha hlt => ⟨a, ⟨hg, ha⟩, hs.step a ⟨hg, ha⟩, hlt⟩
  cases hpc : s.child1.pc with
  | entry =>
    refine Or.inr (hstep .open1 hpc nofun ?_)
    simp [act, Child1.enter, Child1.stepsLeft, hpc]
  | chars =>
    simp only [Child1.Progress, hpc] at hprog
    obtain ⟨hstr, hle, harr, -⟩ := hprog
    refine Or.inr ?_
    rcases hle.lt_or_eq with hi | hi
    · refine hstep (.char1 (tally (text.take (s.child1.i + 1)))) ⟨hpc, hflag, ?_⟩ nofun ?_
      · rw [hstr, harr, List.getElem?_eq_getElem hi, Option.map_some, countChar_tally,
          List.take_concat_get' text s.child1.i hi]
      · simp only [act, Child1.count, Child1.stepsLeft, hpc]
        omega
    · refine hstep .processed1 ⟨hpc, ?_⟩ nofun ?_
      · rw [hstr, hi]
      · simp only [act, Child1.processed, Child1.stepsLeft, hpc]
        omega
  | report =>
    simp only [Child1.Progress, hpc] at hprog
    obtain ⟨hle, -, -⟩ := hprog
    refine Or.inr ?_
    rcases hle.lt_or_eq with hi | hi
    · refine hstep .report1 ⟨hpc, hflag, hi⟩ nofun ?_
      simp only [act, Child1.report, Child1.stepsLeft, hpc]
      omega
    · refine hstep .finish1 ⟨hpc, hi.ge⟩ nofun ?_
      simp only [act, Child1.finish, Child1.stepsLeft, hpc]
      omega
  | killed => exact absurd hpc hkilled
  | done => exact Or.inl rfl

/-- The thread can always complete its work. -/
theorem canReach_done (hs : (quiet t text).Reachable s) :
    (quiet t text).CanReach (fun s => s.child1.pc = .done) s := by
  obtain ⟨as, s', hrun, -, hdone⟩ := Program.exists_run_of_rank
    (V := fun s => s.child1.stepsLeft text) (I := (quiet t text).Reachable)
    (fun _ => done_or_step) hs
  exact ⟨as, s', hrun, hdone⟩

/-- The letter occurs less than 100 times, or its `int` is above 100. -/
def RareOrMany (k : Fin 26) (text : List UInt8) : Prop :=
  letterCount k text < 100 ∨
    100 < letterCount k text % 2 ^ 32 ∧ letterCount k text % 2 ^ 32 < 2 ^ 31

theorem toInt_ofNat_cases (n : ℕ) :
    n % 2 ^ 32 < 2 ^ 31 ∧ (Int32.ofNat n).toInt = (n % 2 ^ 32 : ℕ) ∨
      2 ^ 31 ≤ n % 2 ^ 32 ∧ (Int32.ofNat n).toInt < 0 := by
  have hbmod : (Int32.ofNat n).toInt = (n : ℤ).bmod (2 ^ 32) := Int32.toInt_ofNat'
  rw [hbmod, Int.bmod_def]
  split <;> omega

/-- The loop agrees with the comment about a letter. -/
theorem rareOrMany_iff (k : Fin 26) (text : List UInt8) :
    (decide (Int32.ofNat (letterCount k text) ≤ 100) = decide (letterCount k text < 100) ∧
      (letterCount k text < 100 →
        (Int32.ofNat (letterCount k text)).toInt = letterCount k text)) ↔
      RareOrMany k text := by
  have hle : Int32.ofNat (letterCount k text) ≤ 100 ↔
      (Int32.ofNat (letterCount k text)).toInt ≤ 100 := Int32.le_iff_toInt_le
  have hcases := toInt_ofNat_cases (letterCount k text)
  rw [decide_eq_decide, hle, RareOrMany]
  omega

/-- The two lists agree exactly where no letter is one too many. -/
theorem reportedLetters_eq_iff (text : List UInt8) :
    reportedLetters text = rareLetters text ↔ ∀ k, RareOrMany k text := by
  refine (map_filter_eq_iff Fin.val_injective).trans ?_
  simp only [List.mem_finRange, true_imp_iff, decide_eq_true_eq, rareOrMany_iff]

/-- Without `SIGUSR2` the thread can always complete its work. Its log then lists the
    letters that occur less than 100 times, and no others, if and only if the `int` of every
    other letter is above 100. -/
theorem report_iff (t : CharType) (text : List UInt8) :
    (∀ s, (quiet t text).Reachable s →
      (quiet t text).CanReach (fun s => s.child1.pc = .done) s) ∧
    ((∀ s, (quiet t text).Reachable s → s.child1.pc = .done →
      processedLine s.child1.log = rareLetters text) ↔ ∀ k, RareOrMany k text) := by
  refine ⟨fun s hs => canReach_done hs, ?_⟩
  rw [← reportedLetters_eq_iff]
  have hline : ∀ s, (quiet t text).Reachable s → s.child1.pc = .done →
      processedLine s.child1.log = reportedLetters text := fun s hs hdone =>
    processedLine_of_done (progress_of_reachable hs.of_restrict) hdone
  constructor
  · intro h
    -- the log of one complete run decides
    have hinit : (quiet t text).Reachable (start (Vector.replicate 9 0)) := .init ⟨_, rfl⟩
    obtain ⟨as, s, hrun, hdone⟩ := canReach_done hinit
    exact (hline s (hinit.run hrun) hdone).symm.trans (h s (hinit.run hrun) hdone)
  · exact fun h s hs hdone => (hline s hs hdone).trans h

/-- 100 times the letter `a` -/
def hundred : List UInt8 := List.replicate 100 97

/-- A letter that occurs 100 times is still reported. -/
theorem report_hundred : ∃ s, (quiet .signed hundred).Reachable s ∧ s.child1.pc = .done ∧
    (0, 100) ∈ processedLine s.child1.log ∧
    processedLine s.child1.log ≠ rareLetters hundred := by
  have hinit : (quiet .signed hundred).Reachable (start (Vector.replicate 9 0)) := .init ⟨_, rfl⟩
  obtain ⟨as, s, hrun, hdone⟩ := canReach_done hinit
  have hs := hinit.run hrun
  refine ⟨s, hs, hdone, ?_⟩
  rw [processedLine_of_done (progress_of_reachable hs.of_restrict) hdone]
  exact ⟨by decide +kernel, by decide +kernel⟩

end Apes.Pthread
