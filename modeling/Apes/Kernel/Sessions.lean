import Apes.Kernel.Creds

/-!
# Process groups and sessions

`setpgid`, `getpgid`, `getsid` and `setsid` of `sys.c`, among processes that fork, execute
programs, exit, and are given new parents. The last four are not in `sys.c` and do here what
they are documented to do: a new task gets a number that is not in use, neither as a task's own
nor as that of a group or a session, and is in the group and in the session of its parent; a
program that is executed leaves one thread; and a task that has exited and is waited for is
gone. All processes are in one pid namespace, so that every caller sees the same numbers.
-/

namespace Apes.Kernel

open Apes

/-- A process, as the calls see it. The group and the session belong to the leader of its
    threads, whose number is that of the process. -/
structure Process where
  pid : ℕ
  -- the process of `real_parent`
  realParent : ℕ
  pgrp : ℕ
  session : ℕ
  -- `signal->leader`
  leader : Bool
  -- `PF_FORKNOEXEC`: it has not executed a program since it was forked
  forkNoExec : Bool
  deriving DecidableEq, Repr

/-- The processes, those first that have come to their group last, and the numbers of the
    other threads with their processes. -/
structure Tasks where
  processes : List Process
  threads : List (ℕ × ℕ)

namespace Tasks

/-- `find_task_by_vpid(nr)`, where this is the leader of its threads -/
def findLeader (s : Tasks) (nr : ℤ) : Option Process := s.processes.find? fun p => (p.pid : ℤ) = nr

/-- `find_task_by_vpid(nr)`, where this is another thread: its process -/
def findThread (s : Tasks) (nr : ℤ) : Option Process :=
  (s.threads.find? fun t => (t.1 : ℤ) = nr).bind fun t => s.findLeader t.2

/-- `pid_task(find_vpid(nr), PIDTYPE_PGID)` -/
def groupTask (s : Tasks) (nr : ℤ) : Option Process := s.processes.find? fun p => (p.pgrp : ℤ) = nr

/-- The process `p.pid` is now `p`, with the number of its group attached anew. -/
def change (s : Tasks) (p : Process) : Tasks :=
  { s with processes := p :: s.processes.filter fun q => q.pid ≠ p.pid }

end Tasks

/-! ## The calls -/

/-- The checks of `setpgid` on who may move `p`: its parent, before it has executed a
    program, and `p` itself. -/
def checkTarget (current p : Process) : Option Errno :=
  if p.realParent = current.pid then
    if p.session ≠ current.session then some .EPERM
    else if p.forkNoExec = false then some .EACCES
    else none
  else if p.pid ≠ current.pid then some .ESRCH
  else none

/-- Whether the session of the group `pgid` is that of the caller. -/
def Tasks.groupInSession (s : Tasks) (current : Process) (pgid : ℤ) : Bool :=
  (s.groupTask pgid).any fun g => g.session = current.session

/-- `setpgid(pid, pgid)`, called by a thread of the process `current`; `security` is what
    `security_task_setpgid` fails with. -/
def setpgid (security : Option Errno) (current : Process) (pid pgid : ℤ) (s : Tasks) :
    Except Errno Unit × Tasks :=
  let pid : ℤ := if pid = 0 then current.pid else pid
  let pgid : ℤ := if pgid = 0 then pid else pgid
  if pgid < 0 then (.error .EINVAL, s)
  else
    match s.findLeader pid with
    | none => (.error (if (s.findThread pid).isSome then .EINVAL else .ESRCH), s)
    | some p =>
      match checkTarget current p with
      | some e => (.error e, s)
      | none =>
        if p.leader then (.error .EPERM, s)
        else if pgid ≠ pid ∧ s.groupInSession current pgid = false then (.error .EPERM, s)
        else
          match security with
          | some e => (.error e, s)
          | none =>
            if (p.pgrp : ℤ) ≠ pgid then (.ok (), s.change { p with pgrp := pgid.toNat })
            else (.ok (), s)

/-- `getpgid` and `getsid`, which differ in the number that they read. -/
def readNumber (number : Process → ℕ) (security : Option Errno) (current : Process) (pid : ℤ)
    (s : Tasks) : Except Errno ℕ :=
  if pid = 0 then .ok (number current)
  else
    match (s.findLeader pid).or (s.findThread pid) with
    | none => .error .ESRCH
    | some p =>
      match security with
      | some e => .error e
      | none => .ok (number p)

/-- `getpgid(pid)` -/
def getpgid (security : Option Errno) (current : Process) (pid : ℤ) (s : Tasks) :
    Except Errno ℕ :=
  readNumber Process.pgrp security current pid s

/-- `getsid(pid)` -/
def getsid (security : Option Errno) (current : Process) (pid : ℤ) (s : Tasks) :
    Except Errno ℕ :=
  readNumber Process.session security current pid s

/-- `set_special_pids(pid)` -/
def setSpecialPids (current : Process) (pid : ℕ) : Process :=
  let current := if current.session ≠ pid then { current with session := pid } else current
  if current.pgrp ≠ pid then { current with pgrp := pid } else current

/-- `setsid()` -/
def setsid (current : Process) (s : Tasks) : Except Errno ℕ × Tasks :=
  if current.leader then (.error .EPERM, s)
  else if (s.groupTask current.pid).isSome then (.error .EPERM, s)
  else
    (.ok current.pid, s.change (setSpecialPids { current with leader := true } current.pid))

/-! ## The system -/

inductive TaskAction
  | setpgid (security : Option Errno) (current : Process) (pid pgid : ℤ)
  | setsid (current : Process)
  /-- `current` makes the process `pid`, with itself as the parent or with its own one. -/
  | fork (current : Process) (pid : ℕ) (asSibling : Bool)
  /-- `current` starts another thread. -/
  | clone (current : Process) (tid : ℕ)
  | exitThread (tid : ℕ)
  /-- `current` executes a program, which ends its other threads. -/
  | exec (current : Process)
  /-- The parent of `p` has exited, and `parent` takes its place. -/
  | reparent (p : Process) (parent : ℕ)
  /-- `p` has exited, its threads have, its children have other parents, and it is waited
      for. -/
  | release (p : Process)

namespace Tasks

/-- Nothing has the number `nr`. -/
def Free (s : Tasks) (nr : ℕ) : Prop :=
  0 < nr ∧ (∀ p ∈ s.processes, nr ≠ p.pid ∧ nr ≠ p.pgrp ∧ nr ≠ p.session) ∧
    ∀ t ∈ s.threads, nr ≠ t.1

instance (s : Tasks) (nr : ℕ) : Decidable (s.Free nr) :=
  inferInstanceAs (Decidable (_ ∧ _ ∧ _))

/-- What `fork` makes of its caller. -/
def child (current : Process) (pid : ℕ) (asSibling : Bool) : Process :=
  { current with
    pid := pid
    realParent := if asSibling then current.realParent else current.pid
    leader := false
    forkNoExec := true }

def guard (s : Tasks) : TaskAction → Prop
  | .setpgid _ current _ _ => current ∈ s.processes
  | .setsid current => current ∈ s.processes
  | .fork current pid _ => current ∈ s.processes ∧ s.Free pid
  | .clone current tid => current ∈ s.processes ∧ s.Free tid
  | .exitThread _ => True
  | .exec current => current ∈ s.processes
  | .reparent p parent => p ∈ s.processes ∧ parent ≠ p.pid
  | .release p =>
    p ∈ s.processes ∧ (∀ q ∈ s.processes, q.realParent ≠ p.pid) ∧ ∀ t ∈ s.threads, t.2 ≠ p.pid

instance (s : Tasks) (a : TaskAction) : Decidable (s.guard a) := by
  cases a <;> (dsimp only [guard]; infer_instance)

/-- The fields of `p` change that belong to no group and no session. -/
def update (s : Tasks) (p : Process) : Tasks :=
  { s with processes := s.processes.map fun q => if q.pid = p.pid then p else q }

def act (a : TaskAction) (s : Tasks) : Tasks :=
  match a with
  | .setpgid security current pid pgid => (Kernel.setpgid security current pid pgid s).2
  | .setsid current => (Kernel.setsid current s).2
  | .fork current pid asSibling =>
    { s with processes := child current pid asSibling :: s.processes }
  | .clone current tid => { s with threads := (tid, current.pid) :: s.threads }
  | .exitThread tid => { s with threads := s.threads.filter fun t => t.1 ≠ tid }
  | .exec current =>
    { s.update { current with forkNoExec := false } with
      threads := s.threads.filter fun t => t.2 ≠ current.pid }
  | .reparent p parent => s.update { p with realParent := parent }
  | .release p => { s with processes := s.processes.filter fun q => q.pid ≠ p.pid }

/-- The first process, in the group and in the session that `init_task` has. -/
def init : Process := ⟨1, 0, 0, 0, false, true⟩

end Tasks

/-- All processes, which call in any order. -/
def tasksProgram : Program Tasks TaskAction where
  init s := s = ⟨[Tasks.init], []⟩
  guard := Tasks.guard
  act := Tasks.act

instance (s : Tasks) (a : TaskAction) : Decidable (tasksProgram.guard s a) :=
  inferInstanceAs (Decidable (s.guard a))

end Apes.Kernel
