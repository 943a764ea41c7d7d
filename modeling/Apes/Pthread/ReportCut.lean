import Apes.Pthread.Report

/-!
# The log of `child1_thread_callback` under signals

`SIGUSR2` may come at any moment, and `child2_thread_callback` may take `flag2` back at any
moment. The thread then stops at some character or at some letter, or it does not notice.
What it has logged by then is the beginning of what it would have logged.
-/

namespace Apes.Pthread

open Apes

variable {t : CharType} {text : List UInt8} {s s' : State} {a : Action} {as : List Action}

/-- What the thread logs up to its exit if nothing stops it. -/
def wholeReport (text : List UInt8) : List Message :=
  [.entering, .processedData] ++ reportUpTo (tally text) 26

theorem reportUpTo_mono (c : CountArray) {i n : ℕ} (hi : i ≤ n) :
    reportUpTo c i <+: reportUpTo c n := by
  induction hi with
  | refl => exact List.prefix_rfl
  | step _ ih =>
    rw [reportUpTo_succ]
    exact ih.trans (List.prefix_append _ _)

/-- In its loops the thread has logged a beginning of the report. -/
theorem Child1.Progress.log_begins {c : Child1} (h : c.Progress text)
    (hpc : c.pc = .chars ∨ c.pc = .report) : .entering ∈ c.log ∧ c.log <+: wholeReport text := by
  rcases hpc with hpc | hpc
  · simp only [Child1.Progress, hpc] at h
    rw [h.2.2.2]
    exact ⟨List.mem_singleton_self _, ⟨_, rfl⟩⟩
  · simp only [Child1.Progress, hpc] at h
    obtain ⟨hi, -, hlog⟩ := h
    rw [hlog]
    exact ⟨List.mem_cons_self .., (List.prefix_append_right_inj _).mpr (reportUpTo_mono _ hi)⟩

/-- What a thread that was stopped has logged. -/
def Child1.Cut (text : List UInt8) (c : Child1) : Prop :=
  c.pc = .killed → ∃ l, .entering ∈ l ∧ l <+: wholeReport text ∧ c.log = l ++ [.withoutCompleting]

theorem cut_act (hg : guard t s a) (hprog : s.child1.Progress text) (h : s.child1.Cut text) :
    (act text a s).child1.Cut text := by
  cases a with
  | kill1 =>
    intro _
    have hpc : s.child1.pc = .chars ∨ s.child1.pc = .report := hg.1.imp And.left And.left
    obtain ⟨hmem, hpre⟩ := hprog.log_begins hpc
    exact ⟨s.child1.log, hmem, hpre, rfl⟩
  | open1 | processed1 | finish1 => exact fun hpc => by cases hpc
  | char1 countArray =>
    have hpc : s.child1.pc = .chars := hg.1
    exact fun hkilled => absurd (hpc.symm.trans hkilled) (by decide)
  | report1 =>
    have hpc : s.child1.pc = .report := hg.1
    exact fun hkilled => absurd (hpc.symm.trans hkilled) (by decide)
  | _ => exact h

theorem cut_of_reachable (hs : (program t text).Reachable s) : s.child1.Cut text := by
  have hinv : s.child1.Progress text ∧ s.child1.Cut text := by
    refine hs.invariant (I := fun s => s.child1.Progress text ∧ s.child1.Cut text) ?_ ?_
    · rintro s ⟨cpu, rfl⟩
      exact ⟨rfl, nofun⟩
    · rintro s a - ⟨hprog, hcut⟩ hg
      exact ⟨progress_act hg hprog, cut_act hg hprog hcut⟩
  exact hinv.2

/-- The thread stops only after the signal has come. -/
structure Signalled (hist : List Action) (s : State) : Prop where
  flag2 : s.flag2 = true → .usr2 ∈ hist
  killed : s.child1.pc = .killed → .usr2 ∈ hist

theorem Signalled.step {hist : List Action} (h : Signalled hist s) (hg : guard t s a) :
    Signalled (hist ++ [a]) (act text a s) := by
  have hold (hmem : .usr2 ∈ hist) : .usr2 ∈ hist ++ [a] := List.mem_append_left _ hmem
  cases a with
  | usr2 =>
    have hnew : .usr2 ∈ hist ++ [Action.usr2] := List.mem_append_right _ (List.mem_singleton_self _)
    exact ⟨fun _ => hnew, fun _ => hnew⟩
  | kill1 => exact ⟨fun hf => hold (h.flag2 hf), fun _ => hold (h.flag2 hg.2)⟩
  | leave2 => exact ⟨nofun, fun hpc => hold (h.killed hpc)⟩
  | open1 | processed1 | finish1 => exact ⟨fun hf => hold (h.flag2 hf), fun hpc => by cases hpc⟩
  | _ => exact ⟨fun hf => hold (h.flag2 hf), fun hpc => hold (h.killed hpc)⟩

/-- In every run, whenever `SIGUSR2` comes and however the threads take turns: while the thread is
    in its loops its log is a beginning of the report that it makes without a signal; a thread
    that has completed its work has logged all of it and its exit; and one that was stopped,
    which only happens after the signal, has logged a beginning of it and that it did not
    complete its work. -/
theorem report_cut (t : CharType) (text : List UInt8) (h0 : (program t text).init s)
    (hrun : (program t text).Run s as s') :
    (¬ s'.child1.Exited → s'.child1.log <+: wholeReport text) ∧
    (s'.child1.pc = .done → s'.child1.log = wholeReport text ++ [.afterCompleting]) ∧
    (s'.child1.pc = .killed → .usr2 ∈ as ∧ ∃ l, .entering ∈ l ∧ l <+: wholeReport text ∧
      s'.child1.log = l ++ [.withoutCompleting]) := by
  have hinit : (program t text).Reachable s := .init h0
  have hprog := progress_of_reachable (hinit.run hrun)
  have hsignalled : Signalled as s' := by
    have hstart : Signalled [] s := by
      obtain ⟨cpu, rfl⟩ := h0
      exact ⟨nofun, nofun⟩
    exact hrun.history (fun _ _ _ hi hg => hi.step hg) hstart
  refine ⟨fun hexit => ?_, fun hdone => ?_, fun hkilled => ?_⟩
  · cases hpc : s'.child1.pc with
    | entry =>
      simp only [Child1.Progress, hpc] at hprog
      rw [hprog]
      exact List.nil_prefix
    | chars => exact (hprog.log_begins (Or.inl hpc)).2
    | report => exact (hprog.log_begins (Or.inr hpc)).2
    | killed => exact absurd (Or.inl hpc) hexit
    | done => exact absurd (Or.inr hpc) hexit
  · simp only [Child1.Progress, hdone] at hprog
    exact hprog
  · exact ⟨hsignalled.killed hkilled, cut_of_reachable (hinit.run hrun) hkilled⟩

/-- The signal comes after the first of two characters. -/
def stoppedRun : List Action := [.open1, .char1 (tally [97]), .usr2, .kill1]

theorem report_cut_stopped :
    ∃ s', (program .signed [97, 98]).Run (start (Vector.replicate 9 0)) stoppedRun s' ∧
      s'.child1.pc = .killed ∧ .usr2 ∈ stoppedRun ∧ ∃ l, .entering ∈ l ∧
        l <+: wholeReport [97, 98] ∧ s'.child1.log = l ++ [.withoutCompleting] := by
  obtain ⟨s', hrun, hpc⟩ := Program.exists_run_of_exec (program .signed [97, 98])
    (fun s => s.child1.pc = .killed) stoppedRun (start (Vector.replicate 9 0))
    (by decide +kernel)
  exact ⟨s', hrun, hpc, (report_cut .signed [97, 98] ⟨_, rfl⟩ hrun).2.2 hpc⟩

end Apes.Pthread
