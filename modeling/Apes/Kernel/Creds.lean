import Apes.Lib.Program

/-!
# The user and group numbers of a process

The calls of `sys.c` that change the credentials of the process that makes them. Each makes
a copy of the credentials, changes the copy, and then either commits it or throws it away.
What the rest of the kernel answers during a call is a parameter of the call.

`prepare_creds`, `commit_creds`, `abort_creds`, `alloc_uid` and `free_uid` are not in `sys.c`.
Here they do to the credentials and to the references what they are documented to do: a copy
takes a reference to the user of the old credentials, and credentials that are given up give
theirs back.
-/

namespace Apes.Kernel

open Apes

inductive Errno
  | EPERM
  | ESRCH
  | EAGAIN
  | ENOMEM
  | EACCES
  | EFAULT
  | EINVAL
  /-- What a security module returns. -/
  | other (code : ℕ)
  deriving DecidableEq, Repr

/-- `(uid_t) -1`, which asks to leave a number as it is. -/
def unchanged : UInt32 := 0xFFFFFFFF

/-- `INVALID_UID` and `INVALID_GID`, for a number that is not mapped. -/
def invalid : UInt32 := 0xFFFFFFFF

def overflowuid : UInt32 := 65534
def overflowgid : UInt32 := 65534

/-- The numbers of a user namespace and the numbers inside the kernel that they are
    mapped to. -/
structure IdMap where
  make : UInt32 → UInt32
  fromKid : UInt32 → UInt32
  from_invalid : fromKid invalid = unchanged
  from_make : ∀ id, make id ≠ invalid → fromKid (make id) = id
  make_from : ∀ kid, fromKid kid ≠ unchanged → make (fromKid kid) = kid

/-- The number that a caller is shown: `overflow` stands for what is not mapped. -/
def IdMap.munged (m : IdMap) (overflow kid : UInt32) : UInt32 :=
  if m.fromKid kid = unchanged then overflow else m.fromKid kid

structure UserNs where
  uids : IdMap
  gids : IdMap

namespace UserNs

def makeKuid (ns : UserNs) (uid : UInt32) : UInt32 := ns.uids.make uid

def makeKgid (ns : UserNs) (gid : UInt32) : UInt32 := ns.gids.make gid

def fromKuidMunged (ns : UserNs) (kuid : UInt32) : UInt32 :=
  ns.uids.munged overflowuid kuid

def fromKgidMunged (ns : UserNs) (kgid : UInt32) : UInt32 :=
  ns.gids.munged overflowgid kgid

end UserNs

/-- `uid`, `euid`, `suid` and `fsuid`, or the same for groups. -/
structure Ids where
  real : UInt32
  eff : UInt32
  saved : UInt32
  fs : UInt32
  deriving DecidableEq, Repr

structure Cred where
  uid : Ids
  gid : Ids
  -- the user whose `user_struct` the credentials point to
  user : UInt32
  deriving DecidableEq, Repr

/-- What the rest of the kernel answers during a call. -/
structure Answers where
  -- whether `prepare_creds` finds the memory
  prepareCreds : Bool
  -- `ns_capable(old->user_ns, CAP_SETUID)`, or with `CAP_SETGID`
  capable : Bool
  -- whether `alloc_uid` finds or makes the `user_struct`
  allocUid : Bool
  -- whether the new user has at least `RLIMIT_NPROC` processes and is not `INIT_USER`
  nproc : Bool
  -- what `security_task_fix_setuid` fails with
  fixSetuid : Option Errno

/-- No allocation fails, and no security module objects. -/
structure Answers.Grants (k : Answers) : Prop where
  prepareCreds : k.prepareCreds = true
  allocUid : k.allocUid = true
  fixSetuid : k.fixSetuid = none

/-- The process that makes the calls, and the reference counts of all users. -/
structure Task where
  cred : Cred
  -- `PF_NPROC_EXCEEDED` in `flags`
  nprocExceeded : Bool
  users : UInt32 → ℤ

/-- One reference more to the user `uid` -/
def getUser (users : UInt32 → ℤ) (uid : UInt32) : UInt32 → ℤ := fun u =>
  if u = uid then users u + 1 else users u

/-- One reference less to the user `uid` -/
def freeUser (users : UInt32 → ℤ) (uid : UInt32) : UInt32 → ℤ := fun u =>
  if u = uid then users u - 1 else users u

namespace Task

def getUid (t : Task) (uid : UInt32) : Task := { t with users := getUser t.users uid }

def freeUid (t : Task) (uid : UInt32) : Task := { t with users := freeUser t.users uid }

/-- `prepare_creds()`: the copy points to the same user. -/
def prepareCreds (t : Task) : Task := t.getUid t.cred.user

/-- `commit_creds(new)`: the old credentials are given back. -/
def commitCreds (t : Task) (new : Cred) : Task := { t.freeUid t.cred.user with cred := new }

/-- `abort_creds(new)` -/
def abortCreds (t : Task) (new : Cred) : Task := t.freeUid new.user

end Task

/-- `set_user(new)`, or `none` for `-EAGAIN` -/
def setUser (k : Answers) (new : Cred) (t : Task) : Option (Cred × Task) :=
  if k.allocUid then
    let t := { t.getUid new.uid.real with nprocExceeded := k.nproc }
    some ({ new with user := new.uid.real }, t.freeUid new.user)
  else none

/-- The end of the calls that change user numbers. -/
def fixAndCommit (k : Answers) (new : Cred) (t : Task) : Except Errno Unit × Task :=
  match k.fixSetuid with
  | some e => (.error e, t.abortCreds new)
  | none => (.ok (), t.commitCreds new)

/-- `uid_eq` with one of the three numbers -/
def Ids.Among (old : Ids) (kid : UInt32) : Prop :=
  kid = old.real ∨ kid = old.eff ∨ kid = old.saved

instance (old : Ids) (kid : UInt32) : Decidable (old.Among kid) :=
  inferInstanceAs (Decidable (_ ∨ _))

/-- A number of the copy: `kid`, or what it `was` if the caller asks to leave it. -/
def asked (id kid was : UInt32) : UInt32 := if id ≠ unchanged then kid else was

section Calls

variable (ns : UserNs) (k : Answers)

def setregid (rgid egid : UInt32) (t : Task) : Except Errno Unit × Task :=
  let krgid := ns.makeKgid rgid
  let kegid := ns.makeKgid egid
  if rgid ≠ unchanged ∧ krgid = invalid then (.error .EINVAL, t)
  else if egid ≠ unchanged ∧ kegid = invalid then (.error .EINVAL, t)
  else if k.prepareCreds = false then (.error .ENOMEM, t)
  else
    let new := t.cred
    let old := t.cred.gid
    let t := t.prepareCreds
    if rgid ≠ unchanged ∧ ¬ (old.real = krgid ∨ old.eff = krgid ∨ k.capable) then
      (.error .EPERM, t.abortCreds new)
    else
      let gid := asked rgid krgid old.real
      if egid ≠ unchanged ∧
          ¬ (old.real = kegid ∨ old.eff = kegid ∨ old.saved = kegid ∨ k.capable) then
        (.error .EPERM, t.abortCreds { new with gid := { old with real := gid } })
      else
        let egid' := asked egid kegid old.eff
        let sgid :=
          if rgid ≠ unchanged ∨ egid ≠ unchanged ∧ kegid ≠ old.real then egid' else old.saved
        (.ok (), t.commitCreds { new with gid := ⟨gid, egid', sgid, egid'⟩ })

def setgid (gid : UInt32) (t : Task) : Except Errno Unit × Task :=
  let kgid := ns.makeKgid gid
  if kgid = invalid then (.error .EINVAL, t)
  else if k.prepareCreds = false then (.error .ENOMEM, t)
  else
    let new := t.cred
    let old := t.cred.gid
    let t := t.prepareCreds
    if k.capable then (.ok (), t.commitCreds { new with gid := ⟨kgid, kgid, kgid, kgid⟩ })
    else if kgid = old.real ∨ kgid = old.saved then
      (.ok (), t.commitCreds { new with gid := { old with eff := kgid, fs := kgid } })
    else (.error .EPERM, t.abortCreds new)

def setreuid (ruid euid : UInt32) (t : Task) : Except Errno Unit × Task :=
  let kruid := ns.makeKuid ruid
  let keuid := ns.makeKuid euid
  if ruid ≠ unchanged ∧ kruid = invalid then (.error .EINVAL, t)
  else if euid ≠ unchanged ∧ keuid = invalid then (.error .EINVAL, t)
  else if k.prepareCreds = false then (.error .ENOMEM, t)
  else
    let old := t.cred.uid
    let new := t.cred
    let t := t.prepareCreds
    let uid := asked ruid kruid old.real
    let new := { new with uid := { old with real := uid } }
    if ruid ≠ unchanged ∧ old.real ≠ kruid ∧ old.eff ≠ kruid ∧ ¬ k.capable then
      (.error .EPERM, t.abortCreds new)
    else
      let euid' := asked euid keuid old.eff
      let new := { new with uid := { old with real := uid, eff := euid' } }
      if euid ≠ unchanged ∧ old.real ≠ keuid ∧ old.eff ≠ keuid ∧ old.saved ≠ keuid ∧
          ¬ k.capable then
        (.error .EPERM, t.abortCreds new)
      else
        match if uid ≠ old.real then setUser k new t else some (new, t) with
        | none => (.error .EAGAIN, t.abortCreds new)
        | some (new, t) =>
          let suid :=
            if ruid ≠ unchanged ∨ euid ≠ unchanged ∧ keuid ≠ old.real then euid' else old.saved
          fixAndCommit k { new with uid := ⟨uid, euid', suid, euid'⟩ } t

def setuid (uid : UInt32) (t : Task) : Except Errno Unit × Task :=
  let kuid := ns.makeKuid uid
  if kuid = invalid then (.error .EINVAL, t)
  else if k.prepareCreds = false then (.error .ENOMEM, t)
  else
    let old := t.cred.uid
    let new := t.cred
    let t := t.prepareCreds
    if k.capable then
      let new := { new with uid := { old with saved := kuid, real := kuid } }
      match if kuid ≠ old.real then setUser k new t else some (new, t) with
      | none => (.error .EAGAIN, t.abortCreds new)
      | some (new, t) => fixAndCommit k { new with uid := ⟨kuid, kuid, kuid, kuid⟩ } t
    else if kuid ≠ old.real ∧ kuid ≠ old.saved then (.error .EPERM, t.abortCreds new)
    else fixAndCommit k { new with uid := { old with fs := kuid, eff := kuid } } t

def setresuid (ruid euid suid : UInt32) (t : Task) : Except Errno Unit × Task :=
  let kruid := ns.makeKuid ruid
  let keuid := ns.makeKuid euid
  let ksuid := ns.makeKuid suid
  if ruid ≠ unchanged ∧ kruid = invalid then (.error .EINVAL, t)
  else if euid ≠ unchanged ∧ keuid = invalid then (.error .EINVAL, t)
  else if suid ≠ unchanged ∧ ksuid = invalid then (.error .EINVAL, t)
  else if k.prepareCreds = false then (.error .ENOMEM, t)
  else
    let old := t.cred.uid
    let new := t.cred
    let t := t.prepareCreds
    if ¬ k.capable ∧ (ruid ≠ unchanged ∧ ¬ old.Among kruid ∨
        euid ≠ unchanged ∧ ¬ old.Among keuid ∨ suid ≠ unchanged ∧ ¬ old.Among ksuid) then
      (.error .EPERM, t.abortCreds new)
    else
      let uid := asked ruid kruid old.real
      let new := { new with uid := { old with real := uid } }
      match if ruid ≠ unchanged ∧ kruid ≠ old.real then setUser k new t else some (new, t) with
      | none => (.error .EAGAIN, t.abortCreds new)
      | some (new, t) =>
        let euid' := asked euid keuid old.eff
        fixAndCommit k { new with uid := ⟨uid, euid', asked suid ksuid old.saved, euid'⟩ } t

def setresgid (rgid egid sgid : UInt32) (t : Task) : Except Errno Unit × Task :=
  let krgid := ns.makeKgid rgid
  let kegid := ns.makeKgid egid
  let ksgid := ns.makeKgid sgid
  if rgid ≠ unchanged ∧ krgid = invalid then (.error .EINVAL, t)
  else if egid ≠ unchanged ∧ kegid = invalid then (.error .EINVAL, t)
  else if sgid ≠ unchanged ∧ ksgid = invalid then (.error .EINVAL, t)
  else if k.prepareCreds = false then (.error .ENOMEM, t)
  else
    let old := t.cred.gid
    let new := t.cred
    let t := t.prepareCreds
    if ¬ k.capable ∧ (rgid ≠ unchanged ∧ ¬ old.Among krgid ∨
        egid ≠ unchanged ∧ ¬ old.Among kegid ∨ sgid ≠ unchanged ∧ ¬ old.Among ksgid) then
      (.error .EPERM, t.abortCreds new)
    else
      let egid' := asked egid kegid old.eff
      let gid := ⟨asked rgid krgid old.real, egid', asked sgid ksgid old.saved, egid'⟩
      (.ok (), t.commitCreds { new with gid })

/-- The return value is the old number, whether it was changed or not. -/
def setfsuid (uid : UInt32) (t : Task) : UInt32 × Task :=
  let old := t.cred.uid
  let oldFsuid := ns.fromKuidMunged old.fs
  let kuid := ns.makeKuid uid
  if kuid = invalid then (oldFsuid, t)
  else if k.prepareCreds = false then (oldFsuid, t)
  else
    let new := t.cred
    let t := t.prepareCreds
    if (old.Among kuid ∨ kuid = old.fs ∨ k.capable) ∧ kuid ≠ old.fs then
      let new := { new with uid := { old with fs := kuid } }
      if k.fixSetuid = none then (oldFsuid, t.commitCreds new) else (oldFsuid, t.abortCreds new)
    else (oldFsuid, t.abortCreds new)

def setfsgid (gid : UInt32) (t : Task) : UInt32 × Task :=
  let old := t.cred.gid
  let oldFsgid := ns.fromKgidMunged old.fs
  let kgid := ns.makeKgid gid
  if kgid = invalid then (oldFsgid, t)
  else if k.prepareCreds = false then (oldFsgid, t)
  else
    let new := t.cred
    let t := t.prepareCreds
    if (old.Among kgid ∨ kgid = old.fs ∨ k.capable) ∧ kgid ≠ old.fs then
      (oldFsgid, t.commitCreds { new with gid := { old with fs := kgid } })
    else (oldFsgid, t.abortCreds new)

end Calls

/-- Three `put_user` one after the other: what has been written, up to the first that
    fails. -/
def putThree (ok : Fin 3 → Bool) (x y z : UInt32) : Except Errno Unit × List UInt32 :=
  if ok 0 then
    if ok 1 then
      if ok 2 then (.ok (), [x, y, z]) else (.error .EFAULT, [x, y])
    else (.error .EFAULT, [x])
  else (.error .EFAULT, [])

def getresuid (ns : UserNs) (ok : Fin 3 → Bool) (t : Task) : Except Errno Unit × List UInt32 :=
  let cred := t.cred.uid
  putThree ok (ns.fromKuidMunged cred.real) (ns.fromKuidMunged cred.eff)
    (ns.fromKuidMunged cred.saved)

def getresgid (ns : UserNs) (ok : Fin 3 → Bool) (t : Task) : Except Errno Unit × List UInt32 :=
  let cred := t.cred.gid
  putThree ok (ns.fromKgidMunged cred.real) (ns.fromKgidMunged cred.eff)
    (ns.fromKgidMunged cred.saved)

/-! ## Any calls in any order -/

inductive Syscall
  | setregid (rgid egid : UInt32)
  | setgid (gid : UInt32)
  | setreuid (ruid euid : UInt32)
  | setuid (uid : UInt32)
  | setresuid (ruid euid suid : UInt32)
  | setresgid (rgid egid sgid : UInt32)
  | setfsuid (uid : UInt32)
  | setfsgid (gid : UInt32)

namespace Syscall

/-- The calls that need `CAP_SETUID`, the others need `CAP_SETGID`. -/
def OnUids : Syscall → Prop
  | .setreuid .. | .setuid _ | .setresuid .. | .setfsuid _ => True
  | _ => False

/-- A call that returns 0 if it does not fail. -/
def status (r : Except Errno Unit × Task) : Except Errno UInt32 × Task :=
  (r.1.map fun _ => 0, r.2)

/-- What a call returns, and what it leaves behind. -/
def exec (ns : UserNs) (k : Answers) (t : Task) : Syscall → Except Errno UInt32 × Task
  | .setregid rgid egid => status (Kernel.setregid ns k rgid egid t)
  | .setgid gid => status (Kernel.setgid ns k gid t)
  | .setreuid ruid euid => status (Kernel.setreuid ns k ruid euid t)
  | .setuid uid => status (Kernel.setuid ns k uid t)
  | .setresuid ruid euid suid => status (Kernel.setresuid ns k ruid euid suid t)
  | .setresgid rgid egid sgid => status (Kernel.setresgid ns k rgid egid sgid t)
  | .setfsuid uid => (Kernel.setfsuid ns k uid t).map .ok id
  | .setfsgid gid => (Kernel.setfsgid ns k gid t).map .ok id

end Syscall

/-- A process that makes these calls, each with the answers that it gets. -/
def program (ns : UserNs) : Program Task (Syscall × Answers) where
  init t := t.cred.user = t.cred.uid.real
  guard _ _ := True
  act a t := (a.1.exec ns a.2 t).2

end Apes.Kernel
