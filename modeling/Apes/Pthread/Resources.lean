import Apes.Pthread.Ticks

/-!
# Open files and allocated memory of the child threads

`child2_thread_callback` opens `/proc/stat` for every sample and never closes it, and it
never frees `input_string`; `child1_thread_callback` does not free `str` where it is killed.
All other handles and blocks are released, once.
-/

namespace Apes.Pthread

open Apes

variable {t : CharType} {text : List UInt8} {s : State} {a : Action}

/-- At the head of its loop `child2_thread_callback` holds its log file and nothing else,
    and where a thread has exited it has released everything once. -/
structure Tidy (s : State) : Prop where
  head : s.child2.pc = .head → s.child2.files.held = [s.child2.fptr]
  exit1 : s.child1.Exited → s.child1.files.Balanced ∧ s.child1.blocks.Balanced
  exit2 : s.child2.Exited → s.child2.files.Balanced ∧ s.child2.blocks.Balanced

/-- `child1_thread_callback` does not find `flag2` set inside of a loop, and
    `child2_thread_callback` neither leaves nor completes a sample. -/
def Action.Clean : Action → Prop
  | .kill1 | .leave2 | .clear2 => False
  | _ => True

/-- What `child1_thread_callback` has opened and allocated while it has not been killed. -/
def Child1.Owns (c : Child1) : Prop :=
  match c.pc with
  | .entry => c.files = .empty ∧ c.blocks = .empty
  | .chars | .report =>
    c.files = ⟨2, []⟩ ∧ c.fptr = 0 ∧ c.fptr2 = 1 ∧ c.blocks = ⟨1, []⟩ ∧ c.block = 0
  | .killed => False
  | .done => c.files.Balanced ∧ c.blocks.Balanced

/-- What `child2_thread_callback` has opened and allocated up to the end of its first
    sample. -/
def Child2.Owns (c : Child2) : Prop :=
  match c.pc with
  | .entry => c.files = .empty ∧ c.blocks = .empty
  | .head | .leave | .check | .sample => c.files = ⟨1, []⟩ ∧ c.fptr = 0 ∧ c.blocks = ⟨1, []⟩
  | .read | .parse | .usage | .clear => c.files = ⟨2, []⟩ ∧ c.fptr = 0 ∧ c.blocks = ⟨1, []⟩
  | .exited => False

def Owns (s : State) : Prop := s.child1.Owns ∧ s.child2.Owns

theorem owns_start (cpu : Cpu) : Owns (start cpu) := ⟨⟨rfl, rfl⟩, rfl, rfl⟩

theorem owns1_act (hg : guard t s a) (hc : a.Clean) (h : s.child1.Owns) :
    (act text a s).child1.Owns := by
  cases a with
  | open1 =>
    have hpc : s.child1.pc = .entry := hg
    simp only [Child1.Owns, hpc] at h
    simp [act, Child1.enter, Child1.Owns, h, Ledger.acquire, Ledger.next, Ledger.empty]
  | char1 =>
    simpa only [Child1.Owns, act, Child1.count] using h
  | processed1 =>
    simp only [Child1.Owns, hg.1] at h
    exact h
  | report1 =>
    simpa only [Child1.Owns, act, Child1.report] using h
  | finish1 =>
    simp only [Child1.Owns, hg.1] at h
    obtain ⟨hfiles, hfptr, hfptr2, hblocks, hblock⟩ := h
    simp only [act, Child1.finish, Child1.Owns, hfiles, hfptr, hfptr2, hblocks, hblock]
    decide
  | kill1 => exact absurd hc id
  | _ => exact h

theorem owns2_act (hg : guard t s a) (hc : a.Clean) (h : s.child2.Owns) :
    (act text a s).child2.Owns := by
  cases a with
  | open2 =>
    have hpc : s.child2.pc = .entry := hg
    simp only [Child2.Owns, hpc] at h
    simp [act, Child2.enter, Child2.Owns, h, Ledger.acquire, Ledger.next, Ledger.empty]
  | head2 =>
    have hpc : s.child2.pc = .head := hg
    simp only [Child2.Owns, hpc] at h
    simp only [act]
    split <;> exact h
  | check2 =>
    have hpc : s.child2.pc = .check := hg
    simp only [Child2.Owns, hpc] at h
    simp only [act]
    split <;> exact h
  | open2Stat =>
    have hpc : s.child2.pc = .sample := hg
    simp only [Child2.Owns, hpc] at h
    simp [act, Child2.openStat, Child2.Owns, h, Ledger.acquire]
  | fgets2 =>
    simp only [Child2.Owns, hg.1] at h
    exact h
  | parse2 =>
    simp only [Child2.Owns, hg.1] at h
    exact h
  | usage2 =>
    have hpc : s.child2.pc = .usage := hg
    simp only [Child2.Owns, hpc] at h
    exact h
  | leave2 | clear2 => exact absurd hc id
  | _ => exact h

theorem Owns.tidy (h : Owns s) : Tidy s where
  head hpc := by
    have h2 := h.2
    simp only [Child2.Owns, hpc] at h2
    rw [h2.1, h2.2.1]
    decide
  exit1 hexit := by
    have h1 := h.1
    rcases hexit with hpc | hpc <;> simp only [Child1.Owns, hpc] at h1
    exact h1
  exit2 hpc := by
    have h2 := h.2
    have hexit : s.child2.pc = .exited := hpc
    simp only [Child2.Owns, hexit] at h2

/-- The steps that are not clean leave something open or allocated. -/
theorem Owns.not_tidy (hg : guard t s a) (hc : ¬ a.Clean) (h : Owns s) :
    ¬ Tidy (act text a s) := by
  intro htidy
  cases a with
  | kill1 =>
    -- `str`
    have h1 := h.1
    have hblocks : s.child1.blocks = ⟨1, []⟩ := by
      rcases hg.1 with ⟨hpc, -⟩ | ⟨hpc, -⟩ <;> simp only [Child1.Owns, hpc] at h1 <;>
        exact h1.2.2.2.1
    have hbalanced : s.child1.blocks.Balanced := (htidy.exit1 (Or.inl rfl)).2
    rw [hblocks] at hbalanced
    exact absurd hbalanced (by decide)
  | leave2 =>
    -- `input_string`
    have hpc : s.child2.pc = .leave := hg
    have h2 := h.2
    simp only [Child2.Owns, hpc] at h2
    have hbalanced : s.child2.blocks.Balanced := (htidy.exit2 rfl).2
    rw [h2.2.2] at hbalanced
    exact absurd hbalanced (by decide)
  | clear2 =>
    -- `fptr1`
    have hpc : s.child2.pc = .clear := hg
    have h2 := h.2
    simp only [Child2.Owns, hpc] at h2
    have hheld : s.child2.files.held = [s.child2.fptr] := htidy.head rfl
    rw [h2.1, h2.2.1] at hheld
    exact absurd hheld (by decide)
  | _ => exact hc trivial

/-- In every state of a run `child2_thread_callback` holds only its log file at the head of
    its loop and the threads have released everything once they have exited, if and only if
    in that run `child1_thread_callback` never finds `flag2` set inside of a loop and
    `child2_thread_callback` neither leaves nor completes a sample. -/
theorem tidy_iff (t : CharType) (text : List UInt8) {s s' : State} {as : List Action}
    (hs : (program t text).init s) (h : (program t text).Run s as s') :
    (program t text).Throughout Tidy as s ↔ (program t text).Meets (fun _ a => a.Clean) as s := by
  have hstart : Owns s := by
    obtain ⟨cpu, rfl⟩ := hs
    exact owns_start cpu
  exact h.throughout_iff (fun _ ho => ho.tidy)
    (fun _ _ ho hg hc => ⟨owns1_act hg hc ho.1, owns2_act hg hc ho.2⟩)
    (fun _ _ ho hg hc => ho.not_tidy hg hc) hstart

/-- A sample, and then `SIGUSR2` for both threads. -/
def sampleThenKill : List Action :=
  [.open1, .open2, .tick, .head2, .check2, .open2Stat, .fgets2 shortStat,
    .parse2 shortCpu, .usage2, .clear2, .usr2, .kill1, .head2, .leave2]

/-- After one sample two files are open at the head of the loop. -/
theorem run_sample : ∃ s', (program .signed [97]).Run (start (Vector.replicate 9 0))
    (sampleThenKill.take 10) s' ∧ s'.child2.pc = .head ∧ s'.child2.files.held = [0, 1] :=
  Program.exists_run_of_exec _ _ _ _ (by decide +kernel)

/-- Once both threads have left on the signal, `str`, `input_string` and the handle of
    `/proc/stat` are lost. -/
theorem run_sampleThenKill : ∃ s', (program .signed [97]).Run (start (Vector.replicate 9 0))
    sampleThenKill s' ∧ s'.child1.Exited ∧ s'.child2.Exited ∧ s'.child1.blocks.held = [0] ∧
      s'.child2.blocks.held = [0] ∧ s'.child2.files.held = [1] :=
  Program.exists_run_of_exec _ _ _ _ (by decide +kernel)

theorem tidy_iff_sampleThenKill :
    (program .signed [97]).Throughout Tidy sampleThenKill (start (Vector.replicate 9 0)) ↔
      (program .signed [97]).Meets (fun _ a => a.Clean) sampleThenKill
        (start (Vector.replicate 9 0)) := by
  obtain ⟨s', hrun, -⟩ := run_sampleThenKill
  exact tidy_iff .signed [97] ⟨_, rfl⟩ hrun

theorem tidy_fails_sampleThenKill :
    (∃ s, (program .signed [97]).Reachable s ∧ s.child2.pc = .head ∧
      s.child2.files.held = [0, 1] ∧ ¬ Tidy s) ∧
    ∃ s, (program .signed [97]).Reachable s ∧ s.child1.Exited ∧ s.child2.Exited ∧
      ¬ s.child1.blocks.Balanced ∧ ¬ s.child2.blocks.Balanced ∧ ¬ s.child2.files.Balanced := by
  have hinit : (program .signed [97]).Reachable (start (Vector.replicate 9 0)) := .init ⟨_, rfl⟩
  obtain ⟨s1, hrun1, hpc, hheld⟩ := run_sample
  obtain ⟨s2, hrun2, hexit1, hexit2, hstr, hinput, hstat⟩ := run_sampleThenKill
  refine ⟨⟨s1, hinit.run hrun1, hpc, hheld, ?_⟩, s2, hinit.run hrun2, hexit1, hexit2, ?_, ?_, ?_⟩
  · intro h
    have hlog := h.head hpc
    rw [hheld] at hlog
    exact absurd (congrArg List.length hlog) (by simp)
  · intro h
    exact absurd (h.held_eq_nil.symm.trans hstr) (by decide)
  · intro h
    exact absurd (h.held_eq_nil.symm.trans hinput) (by decide)
  · intro h
    exact absurd (h.held_eq_nil.symm.trans hstat) (by decide)

end Apes.Pthread
