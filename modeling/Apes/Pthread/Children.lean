import Apes.Lib.Ledger
import Apes.Lib.Program
import Apes.Pthread.Letters
import Apes.Pthread.ProcStat

/-!
# The two child threads of `BBG_pthread.c`

`child1_thread_callback` counts the letters of `gdb.txt` and reports them,
`child2_thread_callback` logs the CPU usage after every tick of the timer. Two signal
handlers set the variables `flag` and `flag2` that the threads poll. Every access to one of
the two variables, every `fopen` and every `fgets` is one step, together with what the
thread does on its own up to the next one; a signal is handled between any two steps.

The handles of open files and the blocks of allocated memory are the identities of two
ledgers for each thread. A step that faults is no step: it ends the process.
-/

namespace Apes.Pthread

open Apes

/-- What the threads write to their log. -/
inductive Message
  | entering
  /-- `Exiting Child1 thread without completing work` -/
  | withoutCompleting
  /-- `Exiting Child1 thread after completing work` -/
  | afterCompleting
  /-- `Processed data:` -/
  | processedData
  /-- A letter and its number. -/
  | letter (i : ℕ) (count : Int32)
  /-- `Signal USR2 received, Exiting Child2 thread` -/
  | usr2Received
  /-- `CPU Utlization=`, with the two numbers whose quotient is logged. -/
  | cpuUtilization (usage time : UInt64)
  deriving DecidableEq, Repr

/-- Where `child1_thread_callback` is. -/
inductive Pc1
  | entry
  /-- At the head of the character loop. -/
  | chars
  /-- At the head of the loop that reports the letters. -/
  | report
  /-- Exited without completing its work. -/
  | killed
  /-- Exited after completing its work. -/
  | done
  deriving DecidableEq, Repr

/-- The variables of `child1_thread_callback`. -/
structure Child1 where
  pc : Pc1
  i : ℕ
  countArray : CountArray
  -- the block behind `str`, and what it holds
  block : ℕ
  str : List UInt8
  fptr : ℕ
  fptr2 : ℕ
  files : Ledger
  blocks : Ledger
  log : List Message
  deriving DecidableEq

/-- Where `child2_thread_callback` is. -/
inductive Pc2
  | entry
  /-- At the head of the loop, before `flag2==1`. -/
  | head
  /-- Before `flag2=0`. -/
  | leave
  /-- Before `flag == 1`. -/
  | check
  /-- Before `fopen("/proc/stat","r")`. -/
  | sample
  /-- Before `fgets`. -/
  | read
  /-- Before the first `strtok`. -/
  | parse
  /-- Before the CPU usage is computed and logged. -/
  | usage
  /-- Before `flag =0`. -/
  | clear
  | exited
  deriving DecidableEq, Repr

/-- The variables of `child2_thread_callback`. -/
structure Child2 where
  pc : Pc2
  cpu : Cpu
  -- the block behind `input_string`, and what it holds
  block : ℕ
  inputString : List UInt8
  fptr : ℕ
  fptr1 : ℕ
  files : Ledger
  blocks : Ledger
  log : List Message
  deriving DecidableEq

structure State where
  flag : Bool
  flag2 : Bool
  child1 : Child1
  child2 : Child2
  deriving DecidableEq

/-- The steps of the two threads and the two signal handlers. What a step computes, or
    finds in a file, is its argument. -/
inductive Action
  | open1
  | char1 (countArray : CountArray)
  | processed1
  | report1
  | kill1
  | finish1
  | open2
  | head2
  | leave2
  | check2
  | open2Stat
  | fgets2 (stat : List UInt8)
  | parse2 (cpu : Cpu)
  | usage2
  | clear2
  /-- `timer_handler` -/
  | tick
  /-- `kill_thread_handler` -/
  | usr2
  deriving DecidableEq

/-! ## `child1_thread_callback` -/

namespace Child1

def Exited (c : Child1) : Prop := c.pc = .killed ∨ c.pc = .done

instance (c : Child1) : Decidable c.Exited := inferInstanceAs (Decidable (_ ∨ _))

/-- The thread is at a check of `flag2`: inside one of its loops. -/
def Polls (c : Child1) : Prop :=
  c.pc = .chars ∧ c.i < c.str.length ∨ c.pc = .report ∧ c.i < 26

instance (c : Child1) : Decidable c.Polls := inferInstanceAs (Decidable (_ ∨ _))

/-- Up to the character loop: the log and the text file are opened, the text is read. -/
def enter (c : Child1) (text : List UInt8) : Child1 :=
  { c with
    pc := .chars, i := 0, countArray := noLetters, block := c.blocks.next, str := text
    fptr := c.files.next, fptr2 := c.files.acquire.next
    files := c.files.acquire.acquire, blocks := c.blocks.acquire
    log := c.log ++ [.entering] }

/-- The exit inside of a loop. -/
def kill (c : Child1) : Child1 :=
  { c with
    pc := .killed, files := (c.files.release c.fptr).release c.fptr2
    log := c.log ++ [.withoutCompleting] }

/-- One character. -/
def count (c : Child1) (countArray : CountArray) : Child1 :=
  { c with countArray := countArray, i := c.i + 1 }

/-- Behind the character loop. -/
def processed (c : Child1) : Child1 :=
  { c with pc := .report, i := 0, log := c.log ++ [.processedData] }

/-- A letter is reported if there are at most 100 of it. -/
def report (c : Child1) : Child1 :=
  { c with
    i := c.i + 1
    log := match c.countArray[c.i]? with
      | some n => if n ≤ 100 then c.log ++ [.letter c.i n] else c.log
      | none => c.log }

/-- The exit behind both loops. -/
def finish (c : Child1) : Child1 :=
  { c with
    pc := .done, files := (c.files.release c.fptr2).release c.fptr
    blocks := c.blocks.release c.block, log := c.log ++ [.afterCompleting] }

end Child1

/-! ## `child2_thread_callback` -/

namespace Child2

def Exited (c : Child2) : Prop := c.pc = .exited

instance (c : Child2) : Decidable c.Exited := inferInstanceAs (Decidable (_ = _))

/-- Up to the loop: the log is opened. -/
def enter (c : Child2) : Child2 :=
  { c with
    pc := .head, block := c.blocks.next, blocks := c.blocks.acquire
    fptr := c.files.next, files := c.files.acquire, log := c.log ++ [.entering] }

def goto (c : Child2) (pc : Pc2) : Child2 := { c with pc }

/-- The exit after the signal. -/
def leave (c : Child2) : Child2 :=
  { c with pc := .exited, files := c.files.release c.fptr, log := c.log ++ [.usr2Received] }

/-- `fptr1 = fopen("/proc/stat","r")` -/
def openStat (c : Child2) : Child2 :=
  { c with pc := .read, fptr1 := c.files.next, files := c.files.acquire }

/-- `fgets(input_string,47,fptr1)` -/
def fgets (c : Child2) (stat : List UInt8) : Child2 :=
  { c with pc := .parse, inputString := Apes.fgets 47 stat }

/-- `strtok` and `atoi` have filled `cpu`. -/
def parsed (c : Child2) (cpu : Cpu) : Child2 := { c with pc := .usage, cpu }

/-- The CPU usage is logged. -/
def logUsage (c : Child2) : Child2 :=
  { c with pc := .clear, log := c.log ++ [.cpuUtilization (cpuUsage c.cpu) (cpuTime c.cpu)] }

end Child2

/-! ## The program -/

/-- When a step can be made. The character loop counts what `countChar` counts and the parse
    loop reads what `parseStat` reads. -/
def guard (t : CharType) (s : State) : Action → Prop
  | .open1 => s.child1.pc = .entry
  | .char1 countArray => s.child1.pc = .chars ∧ s.flag2 = false ∧
      (s.child1.str[s.child1.i]?.map (countChar t s.child1.countArray)) = some (.ok countArray)
  | .processed1 => s.child1.pc = .chars ∧ s.child1.str.length ≤ s.child1.i
  | .report1 => s.child1.pc = .report ∧ s.flag2 = false ∧ s.child1.i < 26
  | .kill1 => s.child1.Polls ∧ s.flag2 = true
  | .finish1 => s.child1.pc = .report ∧ 26 ≤ s.child1.i
  | .open2 => s.child2.pc = .entry
  | .head2 => s.child2.pc = .head
  | .leave2 => s.child2.pc = .leave
  | .check2 => s.child2.pc = .check
  | .open2Stat => s.child2.pc = .sample
  | .fgets2 stat => s.child2.pc = .read ∧ stat ≠ []
  | .parse2 cpu => s.child2.pc = .parse ∧ parseStat s.child2.inputString s.child2.cpu = .ok cpu
  | .usage2 => s.child2.pc = .usage
  | .clear2 => s.child2.pc = .clear
  | .tick => True
  | .usr2 => True

instance (t : CharType) (s : State) : DecidablePred (guard t s)
  | .open1 | .open2 | .head2 | .leave2 | .check2 | .open2Stat | .usage2 | .clear2 =>
    inferInstanceAs (Decidable (_ = _))
  | .char1 _ | .report1 => inferInstanceAs (Decidable (_ ∧ _ ∧ _))
  | .processed1 | .kill1 | .finish1 | .fgets2 _ | .parse2 _ => inferInstanceAs (Decidable (_ ∧ _))
  | .tick | .usr2 => .isTrue trivial

def act (text : List UInt8) (a : Action) (s : State) : State :=
  match a with
  | .open1 => { s with child1 := s.child1.enter text }
  | .char1 countArray => { s with child1 := s.child1.count countArray }
  | .processed1 => { s with child1 := s.child1.processed }
  | .report1 => { s with child1 := s.child1.report }
  | .kill1 => { s with child1 := s.child1.kill }
  | .finish1 => { s with child1 := s.child1.finish }
  | .open2 => { s with child2 := s.child2.enter }
  | .head2 => { s with child2 := s.child2.goto (if s.flag2 then .leave else .check) }
  | .leave2 => { s with flag2 := false, child2 := s.child2.leave }
  | .check2 => { s with child2 := s.child2.goto (if s.flag then .sample else .head) }
  | .open2Stat => { s with child2 := s.child2.openStat }
  | .fgets2 stat => { s with child2 := s.child2.fgets stat }
  | .parse2 cpu => { s with child2 := s.child2.parsed cpu }
  | .usage2 => { s with child2 := s.child2.logUsage }
  | .clear2 => { s with flag := false, child2 := s.child2.goto .head }
  | .tick => { s with flag := true }
  | .usr2 => { s with flag2 := true }

/-- Both threads have been created; `cpu` is not initialised. -/
def start (cpu : Cpu) : State where
  flag := false
  flag2 := false
  child1 := ⟨.entry, 0, noLetters, 0, [], 0, 0, .empty, .empty, []⟩
  child2 := ⟨.entry, cpu, 0, [], 0, 0, .empty, .empty, []⟩

/-- The threads over the text `text` of `gdb.txt`. -/
def program (t : CharType) (text : List UInt8) : Program State Action where
  init s := ∃ cpu, s = start cpu
  guard := guard t
  act := act text

instance (t : CharType) (text : List UInt8) (s : State) (a : Action) :
    Decidable ((program t text).guard s a) :=
  inferInstanceAs (Decidable (guard t s a))

end Apes.Pthread
