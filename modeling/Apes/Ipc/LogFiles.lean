import Apes.Ipc.Conversation
import Apes.Ipc.PipesDescriptors
import Apes.Ipc.QueuesLifetimes
import Apes.Lib.Ledger

/-!
# The log files of the handlers

Every handler of `queues.c` and of `pipes.c` opens its log for each entry, writes through
the variable `fptr`, and closes it. Where `thread2_handler` exits after its last round the
result of `fopen` is dropped: it writes through a handle that has been closed, closes that
once more, and never closes the new one.

A record of the handles is kept beside the runs of the two programs. Every `fopen` succeeds
and returns a handle of its own.
-/

namespace Apes

/-- The handles that `fopen` has returned to a handler, its variable `fptr`, and whether it
    has used or closed a handle that was not open. -/
structure LogFile where
  files : Ledger
  fptr : ℕ
  misused : Bool
  deriving DecidableEq, Repr

namespace LogFile

/-- `fptr = fopen(arg,"a+")` -/
def reopen (f : LogFile) : LogFile := { f with fptr := f.files.next, files := f.files.acquire }

/-- `fopen(arg,"a+")` -/
def openDropped (f : LogFile) : LogFile := { f with files := f.files.acquire }

/-- `fprintf(fptr,…)` -/
def print (f : LogFile) : LogFile := { f with misused := f.misused || f.fptr ∉ f.files.held }

/-- `fclose(fptr)` -/
def close (f : LogFile) : LogFile :=
  { f with misused := f.misused || f.fptr ∉ f.files.held, files := f.files.release f.fptr }

/-- One entry. -/
def write (f : LogFile) : LogFile := f.reopen.print.close

/-- A handler that has logged that it enters. -/
def entered : LogFile := write ⟨.empty, 0, false⟩

/-- No handle has been misused and all of them have been closed once; `fptr` is one of
    them. -/
structure Idle (f : LogFile) : Prop where
  unused : f.misused = false
  balanced : f.files.Balanced
  fptr : f.fptr < f.files.acquired

/-- No handle has been misused, and closing `fptr` makes the record idle. -/
def Pending (f : LogFile) : Prop := f.misused = false ∧ f.close.Idle

theorem Idle.open_print {f : LogFile} (h : f.Idle) : f.reopen.print.Pending := by
  have hheld : f.files.next ∈ f.files.acquire.held := h.balanced.mem_held_acquire.mpr rfl
  have hmisused : f.reopen.print.misused = false := by simp [reopen, print, h.unused, hheld]
  refine ⟨hmisused, ?_, h.balanced.acquire_release, Nat.lt_succ_self _⟩
  simp [close, reopen, print, h.unused, hheld]

theorem Idle.write {f : LogFile} (h : f.Idle) : f.write.Idle := h.open_print.2

theorem idle_entered : entered.Idle := ⟨by decide, by decide, by decide⟩

/-- An entry after an `fopen` whose result is dropped goes to a handle that is closed. -/
theorem Idle.openDropped {f : LogFile} (h : f.Idle) : f.openDropped.print.close.misused = true := by
  have hheld : f.fptr ∉ f.files.acquire.held := by
    rw [h.balanced.mem_held_acquire]
    exact h.fptr.ne
  simp [close, print, LogFile.openDropped, hheld]

end LogFile

/-- Every `fprintf` and `fclose` has been applied to a handle that was open, and a handler
    that has exited has closed every handle once. -/
structure Disciplined {β : Type} (h : Handler β) (f : LogFile) : Prop where
  unused : f.misused = false
  balanced : h.Exited → f.files.Balanced

theorem LogFile.Idle.disciplined {β : Type} {f : LogFile} (hf : f.Idle) (h : Handler β) :
    Disciplined h f := ⟨hf.unused, fun _ => hf.balanced⟩

/-! ## `queues.c` -/

namespace Queues

variable {T : Tables} {s : State} {a : Action} {f : LogFile × LogFile}

/-- What a step does to the log files of `thread1_handler` and of `thread2_handler`. -/
def note (T : Tables) (a : Action) (s : State) (f : LogFile × LogFile) : LogFile × LogFile :=
  match a with
  | .head1 =>
    (if s.flag then f.1.write else if s.thread1.i = T.n then f.1.write else f.1, f.2)
  | .log1 => (f.1.write, f.2)
  | .head2 =>
    (f.1, if s.flag then f.2.write
      else if s.thread2.i = T.n then f.2.openDropped.print.close else f.2)
  | .log2 => (f.1, f.2.write)
  | _ => f

/-- `queues.c` with the log files of its handlers. -/
def logging (T : Tables) : Program (State × LogFile × LogFile) Action :=
  (program T).instrument (LogFile.entered, LogFile.entered) (note T)

/-- `thread2_handler` leaves behind its last round. -/
def LastExit2 (T : Tables) (s : State) (a : Action) : Prop :=
  a = .head2 ∧ s.flag = false ∧ s.thread2.i = T.n

theorem idle1_note (h : f.1.Idle) : (note T a s f).1.Idle := by
  cases a with
  | head1 =>
    simp only [note]
    split
    · exact h.write
    · split
      · exact h.write
      · exact h
  | log1 => exact h.write
  | _ => exact h

theorem idle2_note (ha : ¬ LastExit2 T s a) (h : f.2.Idle) : (note T a s f).2.Idle := by
  cases a with
  | head2 =>
    simp only [note]
    split
    · exact h.write
    · next hf =>
      rw [if_neg fun hn => ha ⟨rfl, by simpa using hf, hn⟩]
      exact h
  | log2 => exact h.write
  | _ => exact h

theorem misused_note (ha : LastExit2 T s a) (h : f.2.Idle) : (note T a s f).2.misused = true := by
  obtain ⟨rfl, hf, hn⟩ := ha
  simpa [note, hf, hn] using h.openDropped

end Queues

/-! ## `pipes.c` -/

namespace Pipes

variable {T : Tables} {s : State} {a : Action} {f : LogFile × LogFile}

/-- What a step does to the log files of `thread1_handler` and of `thread2_handler`. A
    handler that has been killed closes its log behind its two descriptors. -/
def note (T : Tables) (a : Action) (s : State) (f : LogFile × LogFile) : LogFile × LogFile :=
  match a with
  | .head1 =>
    (if s.flag then f.1.reopen.print else if s.thread1.i = T.n then f.1.write else f.1, f.2)
  | .log1 => (f.1.write, f.2)
  | .closeWrite1 => (f.1.close, f.2)
  | .head2 =>
    (f.1, if s.flag then f.2.reopen.print
      else if s.thread2.i = T.n then f.2.openDropped.print.close else f.2)
  | .log2 => (f.1, f.2.write)
  | .closeWrite2 => (f.1, f.2.close)
  | _ => f

/-- `pipes.c` with the log files of its handlers. -/
def logging (T : Tables) : Program (State × LogFile × LogFile) Action :=
  (program T).instrument (LogFile.entered, LogFile.entered) (note T)

/-- `thread2_handler` leaves behind its last round. -/
def LastExit2 (T : Tables) (s : State) : Action → Prop
  | .head2 => s.flag = false ∧ s.thread2.i = T.n
  | _ => False

/-- The log of a handler at a program counter. -/
def LogAt (f : LogFile) : Pc → Prop
  | .close | .closeNext => f.Pending
  | _ => f.Idle

/-- Where a handler is while it leaves its log alone. -/
def Away (pc : Pc) : Prop := pc ≠ .head ∧ pc ≠ .log ∧ pc ≠ .close ∧ pc ≠ .closeNext

theorem LogAt.next {f : LogFile} {r : Role} {flag : Bool} {pc pc' : Pc} (h : LogAt f pc)
    (hpc : Away pc) (hnext : Pc.Next r flag pc pc') : LogAt f pc' := by
  obtain ⟨hhead, hlog, hclose, hcloseNext⟩ := hpc
  cases hnext with
  | count => cases r <;> exact h
  | send | call | callFails | receive => exact h
  | _ => contradiction

theorem logAt_note1 (hg : guard s a) (h : LogAt f.1 s.thread1.pc) :
    LogAt (note T a s f).1 (act T a s).thread1.pc := by
  cases a with
  | sigint => exact h
  | head1 =>
    have hpc : s.thread1.pc = .head := hg
    simp only [hpc, LogAt] at h
    cases hf : s.flag with
    | true => simpa [note, act, act1, Handler.checkHead, hf, LogAt] using h.open_print
    | false =>
      by_cases hn : s.thread1.i = T.n
      · simpa [note, act, act1, Handler.checkHead, hf, hn, LogAt] using h.write
      · simpa [note, act, act1, Handler.checkHead, hf, hn, LogAt] using h
  | log1 =>
    have hpc : s.thread1.pc = .log := hg
    simp only [hpc, LogAt] at h
    exact h.write
  | closeRead1 =>
    have hpc : s.thread1.pc = .close := hg
    rw [hpc] at h
    exact h
  | closeWrite1 =>
    have hpc : s.thread1.pc = .closeNext := hg
    rw [hpc] at h
    exact h.2
  | write1 | count1 | call1 | read1 =>
    have haway : Away s.thread1.pc := by
      simp only [guard] at hg
      simp [Away, hg]
    exact h.next haway (act_moves (T := T) (r := .first) hg trivial).next
  | _ =>
    rw [act, act2_thread1]
    exact h

theorem logAt_note2 (hg : guard s a) (ha : ¬ LastExit2 T s a) (h : LogAt f.2 s.thread2.pc) :
    LogAt (note T a s f).2 (act T a s).thread2.pc := by
  cases a with
  | sigint => exact h
  | head2 =>
    have hpc : s.thread2.pc = .head := hg
    simp only [hpc, LogAt] at h
    cases hf : s.flag with
    | true => simpa [note, act, act2, Handler.checkHead, hf, LogAt] using h.open_print
    | false =>
      have hn : s.thread2.i ≠ T.n := fun hn => ha ⟨hf, hn⟩
      simpa [note, act, act2, Handler.checkHead, hf, hn, LogAt] using h
  | log2 =>
    have hpc : s.thread2.pc = .log := hg
    simp only [hpc, LogAt] at h
    exact h.write
  | closeRead2 =>
    have hpc : s.thread2.pc = .close := hg
    rw [hpc] at h
    exact h
  | closeWrite2 =>
    have hpc : s.thread2.pc = .closeNext := hg
    rw [hpc] at h
    exact h.2
  | write2 | count2 | call2 | read2 =>
    have haway : Away s.thread2.pc := by
      simp only [guard] at hg
      simp [Away, hg]
    exact h.next haway (act_moves (T := T) (r := .second) hg trivial).next
  | _ =>
    rw [act, act1_thread2]
    exact h

theorem misused_note (hg : guard s a) (ha : LastExit2 T s a) (h : LogAt f.2 s.thread2.pc) :
    (note T a s f).2.misused = true := by
  cases a with
  | head2 =>
    have hpc : s.thread2.pc = .head := hg
    simp only [hpc, LogAt] at h
    obtain ⟨hf, hn⟩ := ha
    simpa [note, hf, hn] using h.openDropped
  | _ => exact ha.elim

theorem LogAt.disciplined {f : LogFile} {β : Type} {h : Handler β} (hf : LogAt f h.pc) :
    Disciplined h f where
  unused := by
    unfold LogAt at hf
    split at hf
    · exact hf.1
    · exact hf.1
    · exact hf.unused
  balanced hexit := by
    rcases hexit with hpc | hpc <;> rw [hpc] at hf <;> exact LogFile.Idle.balanced hf

end Pipes

/-! ## The runs of the two programs -/

/-- `thread1_handler` keeps the discipline in every run, `thread2_handler` exactly where it
    does not leave behind its last round. -/
theorem logFiles_disciplined_iff (T : Tables) :
    (∀ s s' as, (Queues.logging T).init s → (Queues.logging T).Run s as s' →
      (Queues.logging T).Throughout (fun s => Disciplined s.1.thread1 s.2.1) as s ∧
      ((Queues.logging T).Throughout (fun s => Disciplined s.1.thread2 s.2.2) as s ↔
        (Queues.logging T).Meets (fun s a => ¬ Queues.LastExit2 T s.1 a) as s)) ∧
    ∀ s s' as, (Pipes.logging T).init s → (Pipes.logging T).Run s as s' →
      (Pipes.logging T).Throughout (fun s => Disciplined s.1.thread1 s.2.1) as s ∧
      ((Pipes.logging T).Throughout (fun s => Disciplined s.1.thread2 s.2.2) as s ↔
        (Pipes.logging T).Meets (fun s a => ¬ Pipes.LastExit2 T s.1 a) as s) := by
  constructor
  · rintro ⟨s, f⟩ s' as ⟨-, rfl⟩ hrun
    constructor
    · exact hrun.throughout (I := fun s => s.2.1.Idle) (fun s hi => hi.disciplined s.1.thread1)
        (fun s a hi _ => Queues.idle1_note hi) LogFile.idle_entered
    · refine hrun.throughout_iff (I := fun s => s.2.2.Idle)
        (fun s hi => hi.disciplined s.1.thread2) (fun s a hi _ ha => Queues.idle2_note ha hi) ?_
        LogFile.idle_entered
      intro s a hi hg ha hd
      have hmisused := Queues.misused_note (not_not.mp ha) hi
      exact absurd hd.unused (by simp [Queues.logging, Program.instrument, hmisused])
  · rintro ⟨s, f⟩ s' as ⟨⟨buff1, buff2, -, -, rfl⟩, rfl⟩ hrun
    have hidle : Pipes.LogAt LogFile.entered .head := LogFile.idle_entered
    constructor
    · exact hrun.throughout (I := fun s => Pipes.LogAt s.2.1 s.1.thread1.pc)
        (fun s hi => hi.disciplined) (fun s a hi hg => Pipes.logAt_note1 hg hi) hidle
    · refine hrun.throughout_iff (I := fun s => Pipes.LogAt s.2.2 s.1.thread2.pc)
        (fun s hi => hi.disciplined) (fun s a hi hg ha => Pipes.logAt_note2 hg ha hi) ?_ hidle
      intro s a hi hg ha hd
      have hmisused := Pipes.misused_note hg (not_not.mp ha) hi
      exact absurd hd.unused (by simp [Pipes.logging, Program.instrument, hmisused])

/-! ## Ten rounds -/

instance (T : Tables) (s : Queues.State × LogFile × LogFile) (a : Queues.Action) :
    Decidable ((Queues.logging T).guard s a) := inferInstanceAs (Decidable (Queues.guard s.1 a))

instance (T : Tables) (s : Pipes.State × LogFile × LogFile) (a : Pipes.Action) :
    Decidable ((Pipes.logging T).guard s a) := inferInstanceAs (Decidable (Pipes.guard s.1 a))

/-- The steps of `pipes.c` in ten rounds, where zeros lie behind the tables. -/
def pipesRounds : List Pipes.Action :=
  (List.replicate 10 [.head1, .write1 fun _ => 0, .count1, .head2, .call2, .read2 true, .log2,
    .write2 fun _ => 0, .count2, .call1, .read1 true, .log1]).flatten ++ [.head1, .head2]

def tenRecords : Tables := ⟨10, fun _ => default, fun _ => default⟩

def queuesStart : Queues.State × LogFile × LogFile :=
  (Queues.start default default, LogFile.entered, LogFile.entered)

def pipesStart : Pipes.State × LogFile × LogFile :=
  (Pipes.start (List.replicate recordSize 0) (List.replicate recordSize 0), LogFile.entered,
    LogFile.entered)

theorem queuesRounds_misuse :
    ∃ s, (Queues.logging tenRecords).Run queuesStart queuesRounds s ∧ s.2.2.misused = true :=
  Program.exists_run_of_exec _ _ _ _ (by decide +kernel)

theorem pipesRounds_misuse :
    ∃ s, (Pipes.logging tenRecords).Run pipesStart pipesRounds s ∧ s.2.2.misused = true :=
  Program.exists_run_of_exec _ _ _ _ (by decide +kernel)

theorem init_queuesStart : (Queues.logging tenRecords).init queuesStart := ⟨⟨_, _, rfl⟩, rfl⟩

theorem init_pipesStart : (Pipes.logging tenRecords).init pipesStart :=
  ⟨⟨_, _, List.length_replicate, List.length_replicate, rfl⟩, rfl⟩

theorem logFiles_disciplined_iff_tenRounds :
    ((Queues.logging tenRecords).Throughout (fun s => Disciplined s.1.thread1 s.2.1)
        queuesRounds queuesStart ∧
      ((Queues.logging tenRecords).Throughout (fun s => Disciplined s.1.thread2 s.2.2)
          queuesRounds queuesStart ↔
        (Queues.logging tenRecords).Meets (fun s a => ¬ Queues.LastExit2 tenRecords s.1 a)
          queuesRounds queuesStart)) ∧
    (Pipes.logging tenRecords).Throughout (fun s => Disciplined s.1.thread1 s.2.1)
        pipesRounds pipesStart ∧
      ((Pipes.logging tenRecords).Throughout (fun s => Disciplined s.1.thread2 s.2.2)
          pipesRounds pipesStart ↔
        (Pipes.logging tenRecords).Meets (fun s a => ¬ Pipes.LastExit2 tenRecords s.1 a)
          pipesRounds pipesStart) := by
  obtain ⟨sq, hq, -⟩ := queuesRounds_misuse
  obtain ⟨sp, hp, -⟩ := pipesRounds_misuse
  have h := logFiles_disciplined_iff tenRecords
  exact ⟨h.1 _ _ _ init_queuesStart hq, h.2 _ _ _ init_pipesStart hp⟩

/-- In both programs `thread2_handler` writes to and closes a handle that it has closed
    before, when it leaves behind its tenth round. -/
theorem logFiles_discipline_fails :
    (¬ ∀ s s' as, (Queues.logging tenRecords).init s → (Queues.logging tenRecords).Run s as s' →
      (Queues.logging tenRecords).Throughout
        (fun s => Disciplined s.1.thread1 s.2.1 ∧ Disciplined s.1.thread2 s.2.2) as s) ∧
    ¬ ∀ s s' as, (Pipes.logging tenRecords).init s → (Pipes.logging tenRecords).Run s as s' →
      (Pipes.logging tenRecords).Throughout
        (fun s => Disciplined s.1.thread1 s.2.1 ∧ Disciplined s.1.thread2 s.2.2) as s := by
  constructor
  · intro hall
    obtain ⟨s, hrun, hmisused⟩ := queuesRounds_misuse
    have hlast := (hall _ _ _ init_queuesStart hrun).last hrun
    exact absurd hlast.2.unused (by simp [hmisused])
  · intro hall
    obtain ⟨s, hrun, hmisused⟩ := pipesRounds_misuse
    have hlast := (hall _ _ _ init_pipesStart hrun).last hrun
    exact absurd hlast.2.unused (by simp [hmisused])

end Apes
