import Apes.Kernel.Creds

/-!
# Resource limits

`do_prlimit` of `sys.c` and the calls around it. A process shares its limits among its
threads. The limits are `unsigned long`; `prlimit64` has 64 bits for each of them, and the
compatibility calls of a 64-bit kernel have 32.
-/

namespace Apes.Kernel

open Apes

/-- `BITS_PER_LONG` -/
inductive Arch
  | bits32
  | bits64
  deriving DecidableEq, Repr

def Arch.bits : Arch → ℕ
  | .bits32 => 32
  | .bits64 => 64

structure Rlimit (w : ℕ) where
  cur : BitVec w
  max : BitVec w
  deriving DecidableEq, Repr

def RLIMIT_CPU : ℕ := 0
def RLIMIT_NOFILE : ℕ := 7
def RLIM_NLIMITS : ℕ := 16

/-- `RLIM_INFINITY`, or `RLIM64_INFINITY`, or `COMPAT_RLIM_INFINITY` -/
def infinity (w : ℕ) : BitVec w := BitVec.allOnes w

variable {γ : Type} {arch : Arch}

/-- A thread whose limits a call is about. -/
structure Thread (γ : Type) where
  -- the process, which has the limits
  signal : γ
  -- whether `sighand` is still there
  sighand : Bool
  isCurrent : Bool
  uid : Ids
  gid : Ids

/-- What the rest of the kernel answers during a call. -/
structure LimitAnswers where
  copyFromUser : Bool
  copyToUser : Bool
  -- `capable(CAP_SYS_RESOURCE)`
  capable : Bool
  -- `ns_capable(tcred->user_ns, CAP_SYS_RESOURCE)`
  nsCapable : Bool
  -- what the security modules fail with
  setrlimit : Option Errno
  prlimit : Option Errno

structure LimitConfig where
  -- `sysctl_nr_open`
  nrOpen : ℕ
  -- `CONFIG_POSIX_TIMERS`
  posixTimers : Bool

/-- The limits of all processes, and the calls of `update_rlimit_cpu`. -/
structure Limits (arch : Arch) (γ : Type) where
  rlim : γ → ℕ → Rlimit arch.bits
  cpuTimers : List (γ × BitVec arch.bits)

namespace Limits

variable [DecidableEq γ]

def set (s : Limits arch γ) (g : γ) (resource : ℕ) (r : Rlimit arch.bits) : Limits arch γ :=
  { s with rlim := Function.update s.rlim g (Function.update (s.rlim g) resource r) }

end Limits

/-! ## The conversions -/

def rlim64IsInfinity (arch : Arch) (x : BitVec 64) : Prop :=
  match arch with
  | .bits32 => 2 ^ 32 - 1 ≤ x.toNat
  | .bits64 => x = infinity 64

instance (arch : Arch) (x : BitVec 64) : Decidable (rlim64IsInfinity arch x) := by
  cases arch <;> (dsimp only [rlim64IsInfinity]; infer_instance)

def toLong (arch : Arch) (x : BitVec 64) : BitVec arch.bits :=
  if rlim64IsInfinity arch x then infinity arch.bits else x.setWidth arch.bits

def toRlim64 (x : BitVec arch.bits) : BitVec 64 :=
  if x = infinity arch.bits then infinity 64 else x.setWidth 64

def rlim64ToRlim (arch : Arch) (r : Rlimit 64) : Rlimit arch.bits :=
  ⟨toLong arch r.cur, toLong arch r.max⟩

def rlimToRlim64 (r : Rlimit arch.bits) : Rlimit 64 := ⟨toRlim64 r.cur, toRlim64 r.max⟩

/-- A 32-bit limit that the compatibility call is given. -/
def compatToLong (arch : Arch) (x : BitVec 32) : BitVec arch.bits :=
  if x = infinity 32 then infinity arch.bits else x.setWidth arch.bits

/-- The 32-bit limit that the compatibility call returns. -/
def longToCompat (x : BitVec arch.bits) : BitVec 32 :=
  if 2 ^ 32 - 1 < x.toNat then infinity 32 else x.setWidth 32

/-! ## The calls -/

/-- What is stored for a new limit: a CPU limit of 0 would mean that it was never set. -/
def stored (resource : ℕ) (new : Rlimit arch.bits) : Rlimit arch.bits :=
  if resource = RLIMIT_CPU ∧ new.cur = 0 then { new with cur := 1 } else new

section Calls

variable [DecidableEq γ] (cfg : LimitConfig) (k : LimitAnswers)

/-- `do_prlimit(tsk, resource, new_rlim, old_rlim)`; the result is what it puts into
    `old_rlim`. -/
def doPrlimit (tsk : Thread γ) (resource : ℕ) (newRlim : Option (Rlimit arch.bits))
    (s : Limits arch γ) : Except Errno (Rlimit arch.bits) × Limits arch γ :=
  if RLIM_NLIMITS ≤ resource then (.error .EINVAL, s)
  else if newRlim.any fun new => new.max < new.cur then (.error .EINVAL, s)
  else if resource = RLIMIT_NOFILE ∧ newRlim.any fun new => cfg.nrOpen < new.max.toNat then
    (.error .EPERM, s)
  else if tsk.sighand = false then (.error .ESRCH, s)
  else
    let old := s.rlim tsk.signal resource
    match newRlim with
    | none => (.ok old, s)
    | some new =>
      if old.max < new.max ∧ k.capable = false then (.error .EPERM, s)
      else
        match k.setrlimit with
        | some e => (.error e, s)
        | none =>
          let new := stored resource new
          let s := s.set tsk.signal resource new
          if resource = RLIMIT_CPU ∧ new.cur ≠ infinity arch.bits ∧ cfg.posixTimers then
            (.ok old, { s with cpuTimers := s.cpuTimers ++ [(tsk.signal, new.cur)] })
          else (.ok old, s)

/-- `check_prlimit_permission(task, flags)` for a caller with the numbers `uid` and `gid` -/
def checkPrlimitPermission (uid gid : UInt32) (task : Thread γ) : Option Errno :=
  if task.isCurrent then none
  else
    let idMatch :=
      uid = task.uid.eff ∧ uid = task.uid.saved ∧ uid = task.uid.real ∧
        gid = task.gid.eff ∧ gid = task.gid.saved ∧ gid = task.gid.real
    if ¬ idMatch ∧ k.nsCapable = false then some .EPERM else k.prlimit

/-- The end of `prlimit64`: where the copy to the user fails, the new limit stays. -/
def copyOld (oldRlim : Bool) (r : Except Errno (Rlimit arch.bits) × Limits arch γ) :
    Except Errno (Option (Rlimit 64)) × Limits arch γ :=
  match r.1 with
  | .error e => (.error e, r.2)
  | .ok old =>
    if oldRlim then
      if k.copyToUser then (.ok (some (rlimToRlim64 old)), r.2) else (.error .EFAULT, r.2)
    else (.ok none, r.2)

omit [DecidableEq γ] in
theorem copyOld_snd (k : LimitAnswers) (oldRlim : Bool)
    (r : Except Errno (Rlimit arch.bits) × Limits arch γ) : (copyOld k oldRlim r).2 = r.2 := by
  unfold copyOld
  split
  · rfl
  · split_ifs <;> rfl

/-- `prlimit64`, with the thread that was found for `pid`. -/
def prlimit64 (uid gid : UInt32) (tsk : Option (Thread γ)) (resource : ℕ)
    (newRlim : Option (Rlimit 64)) (oldRlim : Bool) (s : Limits arch γ) :
    Except Errno (Option (Rlimit 64)) × Limits arch γ :=
  if newRlim.isSome ∧ k.copyFromUser = false then (.error .EFAULT, s)
  else
    match tsk with
    | none => (.error .ESRCH, s)
    | some tsk =>
      match checkPrlimitPermission k uid gid tsk with
      | some e => (.error e, s)
      | none =>
        copyOld k oldRlim (doPrlimit cfg k tsk resource (newRlim.map (rlim64ToRlim arch)) s)

def setrlimit (current : Thread γ) (resource : ℕ) (rlim : Rlimit arch.bits)
    (s : Limits arch γ) : Except Errno Unit × Limits arch γ :=
  if k.copyFromUser then
    let r := doPrlimit cfg k current resource (some rlim) s
    (r.1.map fun _ => (), r.2)
  else (.error .EFAULT, s)

def compatSetrlimit (current : Thread γ) (resource : ℕ) (rlim : Rlimit 32)
    (s : Limits arch γ) : Except Errno Unit × Limits arch γ :=
  setrlimit cfg k current resource ⟨compatToLong arch rlim.cur, compatToLong arch rlim.max⟩ s

def getrlimit (current : Thread γ) (resource : ℕ) (s : Limits arch γ) :
    Except Errno (Rlimit arch.bits) :=
  match (doPrlimit cfg k current resource none s).1 with
  | .error e => .error e
  | .ok value => if k.copyToUser then .ok value else .error .EFAULT

def compatGetrlimit (current : Thread γ) (resource : ℕ) (s : Limits arch γ) :
    Except Errno (Rlimit 32) :=
  match (doPrlimit cfg k current resource none s).1 with
  | .error e => .error e
  | .ok r => if k.copyToUser then .ok ⟨longToCompat r.cur, longToCompat r.max⟩ else .error .EFAULT

end Calls

/-! ## Any calls in any order -/

/-- The calls that can change limits; the calling thread is given with the call. -/
inductive LimitCall (arch : Arch) (γ : Type)
  | prlimit64 (uid gid : UInt32) (tsk : Option (Thread γ)) (resource : ℕ)
      (newRlim : Option (Rlimit 64)) (oldRlim : Bool)
  | setrlimit (current : Thread γ) (resource : ℕ) (rlim : Rlimit arch.bits)
  | compatSetrlimit (current : Thread γ) (resource : ℕ) (rlim : Rlimit 32)

/-- What a call leaves behind. -/
def LimitCall.run [DecidableEq γ] (cfg : LimitConfig) (k : LimitAnswers) (s : Limits arch γ) :
    LimitCall arch γ → Limits arch γ
  | .prlimit64 uid gid tsk resource newRlim oldRlim =>
    (Kernel.prlimit64 cfg k uid gid tsk resource newRlim oldRlim s).2
  | .setrlimit current resource rlim => (Kernel.setrlimit cfg k current resource rlim s).2
  | .compatSetrlimit current resource rlim =>
    (Kernel.compatSetrlimit cfg k current resource rlim s).2

/-- All processes, which call in any order. -/
def limitsProgram [DecidableEq γ] (arch : Arch) (cfg : LimitConfig) :
    Program (Limits arch γ) (LimitCall arch γ × LimitAnswers) where
  init s := s.cpuTimers = []
  guard _ _ := True
  act a s := a.1.run cfg a.2 s

end Apes.Kernel
