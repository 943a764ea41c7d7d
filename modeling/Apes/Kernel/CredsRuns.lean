import Apes.Kernel.Creds

/-!
# What the calls that change credentials keep

Every call gives back the references to users that it takes, and a call that fails changes
no number. Without the capability no call brings in a number that the process does not have
among its real, effective and saved ones.
-/

namespace Apes.Kernel

open Apes

variable {ns : UserNs} {k : Answers} {t t₁ : Task} {new old : Cred} {P : Cred → Prop}

/-! ## A copy of the credentials -/

theorem freeUser_getUser (users : UInt32 → ℤ) (uid : UInt32) :
    freeUser (getUser users uid) uid = users := by
  funext u
  unfold freeUser getUser
  split <;> omega

theorem freeUser_comm (users : UInt32 → ℤ) (uid uid' : UInt32) :
    freeUser (freeUser users uid) uid' = freeUser (freeUser users uid') uid := by
  funext u
  unfold freeUser
  split <;> split <;> rfl

/-- The references to users that do not come from the credentials of the process. -/
def Task.others (t : Task) : UInt32 → ℤ := freeUser t.users t.cred.user

/-- A call has made the copy `new` of the credentials of `t`, which holds a reference. -/
structure Copied (t t₁ : Task) (new : Cred) : Prop where
  cred : t₁.cred = t.cred
  users : freeUser t₁.users new.user = t.users

/-- What a call leaves behind: it gives back all references but that of the credentials, and
    commits credentials that satisfy `P` if it does not fail. -/
structure Settled (t : Task) (P : Cred → Prop) (r : Except Errno Unit × Task) : Prop where
  users : r.2.others = t.others
  failed : ∀ e, r.1 = .error e → r.2.cred = t.cred
  done : r.1 = .ok () → P r.2.cred

theorem copied_prepareCreds (t : Task) : Copied t t.prepareCreds t.cred :=
  ⟨rfl, freeUser_getUser t.users t.cred.user⟩

namespace Copied

/-- `set_user` exchanges the reference of the copy. -/
theorem of_setUser {c : Prop} [Decidable c] {t₂ : Task}
    (hset : (if c then setUser k old t₁ else some (old, t₁)) = some (new, t₂))
    (hcred : t₁.cred = t.cred) (husers : freeUser t₁.users old.user = t.users) :
    Copied t t₂ new ∧ new = { old with user := if c then old.uid.real else old.user } := by
  split at hset
  · next hc =>
    unfold setUser at hset
    split at hset
    · obtain ⟨rfl, rfl⟩ := Prod.mk.inj (Option.some.inj hset)
      refine ⟨⟨hcred, ?_⟩, by rw [if_pos hc]⟩
      simp only [Task.freeUid, Task.getUid]
      rw [freeUser_comm, freeUser_getUser, husers]
    · cases hset
  · next hc =>
    obtain ⟨rfl, rfl⟩ := Prod.mk.inj (Option.some.inj hset)
    exact ⟨⟨hcred, husers⟩, by rw [if_neg hc]⟩

theorem abort (h : Copied t t₁ old) (huser : new.user = old.user) (e : Errno) :
    Settled t P (.error e, t₁.abortCreds new) where
  users := by
    simp only [Task.others, Task.abortCreds, Task.freeUid, huser, h.users, h.cred]
  failed _ _ := h.cred
  done h := by cases h

theorem commit (h : Copied t t₁ old) (hP : P new) (huser : new.user = old.user) :
    Settled t P (.ok (), t₁.commitCreds new) where
  users := by
    simp only [Task.others, Task.commitCreds, Task.freeUid, huser, h.cred]
    rw [freeUser_comm, h.users]
  failed _ h := by cases h
  done _ := hP

theorem fixAndCommit (h : Copied t t₁ old) (huser : new.user = old.user) (hP : P new) :
    Settled t P (fixAndCommit k new t₁) := by
  unfold Kernel.fixAndCommit
  split
  · exact h.abort huser _
  · exact h.commit hP huser

end Copied

theorem settled_error (e : Errno) : Settled t P (.error e, t) :=
  ⟨rfl, fun _ _ => rfl, fun h => by cases h⟩

/-! ## The numbers of the copy -/

/-- No number is new, but `fs` may stay what it was. -/
structure Ids.Confines (old new : Ids) : Prop where
  real : old.Among new.real
  eff : old.Among new.eff
  saved : old.Among new.saved
  fs : old.Among new.fs ∨ new.fs = old.fs

theorem Ids.Among.real (i : Ids) : i.Among i.real := Or.inl rfl

theorem Ids.Among.eff (i : Ids) : i.Among i.eff := Or.inr (Or.inl rfl)

theorem Ids.Among.saved (i : Ids) : i.Among i.saved := Or.inr (Or.inr rfl)

/-- What a call on user numbers may commit. -/
structure UidStep (capable : Bool) (old new : Cred) : Prop where
  gid : new.gid = old.gid
  user : new.user = if new.uid.real ≠ old.uid.real then new.uid.real else old.user
  confines : capable = false → old.uid.Confines new.uid

/-- What a call on group numbers may commit. -/
structure GidStep (capable : Bool) (old new : Cred) : Prop where
  uid : new.uid = old.uid
  user : new.user = old.user
  confines : capable = false → old.gid.Confines new.gid

theorem Ids.Among.asked {i : Ids} {was : UInt32} (hwas : i.Among was) (id kid : UInt32)
    (hkid : id ≠ unchanged → i.Among kid) : i.Among (asked id kid was) := by
  unfold Kernel.asked
  split
  · next hid => exact hkid hid
  · exact hwas

/-- What `setreuid` makes of the numbers. -/
def reuids (ns : UserNs) (ruid euid : UInt32) (old : Ids) : Ids :=
  let uid := asked ruid (ns.makeKuid ruid) old.real
  let euid' := asked euid (ns.makeKuid euid) old.eff
  let suid :=
    if ruid ≠ unchanged ∨ euid ≠ unchanged ∧ ns.makeKuid euid ≠ old.real then euid' else old.saved
  ⟨uid, euid', suid, euid'⟩

theorem settled_setreuid (ns : UserNs) (k : Answers) (ruid euid : UInt32) (t : Task) :
    Settled t (fun new => UidStep k.capable t.cred new ∧ new.uid = reuids ns ruid euid t.cred.uid)
      (setreuid ns k ruid euid t) := by
  have hcopy := copied_prepareCreds t
  unfold setreuid
  dsimp only
  split
  · exact settled_error _
  split
  · exact settled_error _
  split
  · exact settled_error _
  split
  · exact hcopy.abort rfl _
  next hreal =>
  split
  · exact hcopy.abort rfl _
  next heff =>
  split
  · exact hcopy.abort rfl _
  next new t₁ hset =>
  obtain ⟨hcopy₁, rfl⟩ := Copied.of_setUser hset hcopy.cred hcopy.users
  refine hcopy₁.fixAndCommit rfl ⟨⟨rfl, rfl, fun hcap => ?_⟩, rfl⟩
  have hr := (Ids.Among.real t.cred.uid).asked ruid (ns.makeKuid ruid) (by
    unfold Ids.Among
    grind)
  have he := (Ids.Among.eff t.cred.uid).asked euid (ns.makeKuid euid) (by
    unfold Ids.Among
    grind)
  refine ⟨hr, he, ?_, Or.inl he⟩
  dsimp only
  split
  · exact he
  · exact .saved _

/-- What `setuid` makes of the numbers. -/
def suids (ns : UserNs) (capable : Bool) (uid : UInt32) (old : Ids) : Ids :=
  let kuid := ns.makeKuid uid
  if capable then ⟨kuid, kuid, kuid, kuid⟩ else { old with eff := kuid, fs := kuid }

theorem settled_setuid (ns : UserNs) (k : Answers) (uid : UInt32) (t : Task) :
    Settled t
      (fun new => UidStep k.capable t.cred new ∧ new.uid = suids ns k.capable uid t.cred.uid)
      (setuid ns k uid t) := by
  have hcopy := copied_prepareCreds t
  unfold setuid
  dsimp only
  split
  · exact settled_error _
  split
  · exact settled_error _
  split
  · next hcap =>
    split
    · exact hcopy.abort rfl _
    next new t₁ hset =>
    obtain ⟨hcopy₁, rfl⟩ := Copied.of_setUser hset hcopy.cred hcopy.users
    refine hcopy₁.fixAndCommit rfl ⟨⟨rfl, rfl, fun hno => ?_⟩, by simp [suids, hcap]⟩
    simp [hno] at hcap
  next hcap =>
  split
  · exact hcopy.abort rfl _
  next hown =>
  have hown : t.cred.uid.Among (ns.makeKuid uid) := by
    unfold Ids.Among
    grind
  refine hcopy.fixAndCommit rfl ⟨⟨rfl, by simp, fun _ => ?_⟩, by simp [suids, hcap]⟩
  exact ⟨.real _, hown, .saved _, Or.inl hown⟩

/-- What `setresuid` makes of the numbers. -/
def resuids (ns : UserNs) (ruid euid suid : UInt32) (old : Ids) : Ids :=
  let euid' := asked euid (ns.makeKuid euid) old.eff
  ⟨asked ruid (ns.makeKuid ruid) old.real, euid', asked suid (ns.makeKuid suid) old.saved, euid'⟩

theorem settled_setresuid (ns : UserNs) (k : Answers) (ruid euid suid : UInt32) (t : Task) :
    Settled t
      (fun new => UidStep k.capable t.cred new ∧ new.uid = resuids ns ruid euid suid t.cred.uid)
      (setresuid ns k ruid euid suid t) := by
  have hcopy := copied_prepareCreds t
  unfold setresuid
  dsimp only
  split
  · exact settled_error _
  split
  · exact settled_error _
  split
  · exact settled_error _
  split
  · exact settled_error _
  split
  · exact hcopy.abort rfl _
  next hown =>
  split
  · exact hcopy.abort rfl _
  next new t₁ hset =>
  obtain ⟨hcopy₁, rfl⟩ := Copied.of_setUser hset hcopy.cred hcopy.users
  refine hcopy₁.fixAndCommit rfl ⟨⟨rfl, ?_, fun hcap => ?_⟩, rfl⟩
  · dsimp only
    unfold asked
    grind
  · have hr := (Ids.Among.real t.cred.uid).asked ruid (ns.makeKuid ruid) (by grind)
    have he := (Ids.Among.eff t.cred.uid).asked euid (ns.makeKuid euid) (by grind)
    have hs := (Ids.Among.saved t.cred.uid).asked suid (ns.makeKuid suid)
      (by grind)
    exact ⟨hr, he, hs, Or.inl he⟩

theorem settled_setregid (ns : UserNs) (k : Answers) (rgid egid : UInt32) (t : Task) :
    Settled t (GidStep k.capable t.cred) (setregid ns k rgid egid t) := by
  have hcopy := copied_prepareCreds t
  unfold setregid
  dsimp only
  split
  · exact settled_error _
  split
  · exact settled_error _
  split
  · exact settled_error _
  split
  · exact hcopy.abort rfl _
  next hreal =>
  split
  · exact hcopy.abort rfl _
  next heff =>
  refine hcopy.commit ⟨rfl, rfl, fun hcap => ?_⟩ rfl
  have hr := (Ids.Among.real t.cred.gid).asked rgid (ns.makeKgid rgid) (by
    unfold Ids.Among
    grind)
  have he := (Ids.Among.eff t.cred.gid).asked egid (ns.makeKgid egid) (by
    unfold Ids.Among
    grind)
  refine ⟨hr, he, ?_, Or.inl he⟩
  dsimp only
  split
  · exact he
  · exact .saved _

theorem settled_setgid (ns : UserNs) (k : Answers) (gid : UInt32) (t : Task) :
    Settled t (GidStep k.capable t.cred) (setgid ns k gid t) := by
  have hcopy := copied_prepareCreds t
  unfold setgid
  dsimp only
  split
  · exact settled_error _
  split
  · exact settled_error _
  split
  · next hcap =>
    refine hcopy.commit ⟨rfl, rfl, fun hno => ?_⟩ rfl
    simp [hno] at hcap
  split
  · next hown =>
    have hown : t.cred.gid.Among (ns.makeKgid gid) := hown.imp_right Or.inr
    refine hcopy.commit ⟨rfl, rfl, fun _ => ?_⟩ rfl
    exact ⟨.real _, hown, .saved _, Or.inl hown⟩
  · exact hcopy.abort rfl _

theorem settled_setresgid (ns : UserNs) (k : Answers) (rgid egid sgid : UInt32) (t : Task) :
    Settled t (GidStep k.capable t.cred) (setresgid ns k rgid egid sgid t) := by
  have hcopy := copied_prepareCreds t
  unfold setresgid
  dsimp only
  split
  · exact settled_error _
  split
  · exact settled_error _
  split
  · exact settled_error _
  split
  · exact settled_error _
  split
  · exact hcopy.abort rfl _
  next hown =>
  refine hcopy.commit ⟨rfl, rfl, fun hcap => ?_⟩ rfl
  have hr := (Ids.Among.real t.cred.gid).asked rgid (ns.makeKgid rgid) (by grind)
  have he := (Ids.Among.eff t.cred.gid).asked egid (ns.makeKgid egid) (by grind)
  have hs := (Ids.Among.saved t.cred.gid).asked sgid (ns.makeKgid sgid) (by grind)
  exact ⟨hr, he, hs, Or.inl he⟩

/-- What any of the calls leaves behind. -/
structure Kept (t : Task) (P : Cred → Prop) (t' : Task) : Prop where
  users : t'.others = t.others
  cred : t'.cred = t.cred ∨ P t'.cred

theorem kept_refl (t : Task) : Kept t P t := ⟨rfl, Or.inl rfl⟩

theorem Settled.kept {Q : Cred → Prop} {r : Except Errno Unit × Task} (h : Settled t Q r)
    (hPQ : ∀ new, Q new → P new) : Kept t P r.2 where
  users := h.users
  cred := by
    cases hr : r.1 with
    | error e => exact Or.inl (h.failed e hr)
    | ok => exact Or.inr (hPQ _ (h.done hr))

theorem kept_setfsuid (ns : UserNs) (k : Answers) (uid : UInt32) (t : Task) :
    Kept t (UidStep k.capable t.cred) (setfsuid ns k uid t).2 := by
  have hcopy := copied_prepareCreds t
  unfold setfsuid
  dsimp only
  split
  · exact kept_refl t
  split
  · exact kept_refl t
  split
  · next hown =>
    have hstep : UidStep k.capable t.cred
        { t.cred with uid := { t.cred.uid with fs := ns.makeKuid uid } } := by
      refine ⟨rfl, by simp, fun hcap => ⟨.real _, .eff _, .saved _, ?_⟩⟩
      simpa [hcap] using hown.1
    split
    · exact (hcopy.commit (P := UidStep k.capable t.cred) hstep rfl).kept fun _ => id
    · exact (hcopy.abort rfl .EPERM).kept fun _ => id
  · exact (hcopy.abort rfl .EPERM).kept fun _ => id

theorem kept_setfsgid (ns : UserNs) (k : Answers) (gid : UInt32) (t : Task) :
    Kept t (GidStep k.capable t.cred) (setfsgid ns k gid t).2 := by
  have hcopy := copied_prepareCreds t
  unfold setfsgid
  dsimp only
  split
  · exact kept_refl t
  split
  · exact kept_refl t
  split
  · next hown =>
    have hstep : GidStep k.capable t.cred
        { t.cred with gid := { t.cred.gid with fs := ns.makeKgid gid } } := by
      refine ⟨rfl, rfl, fun hcap => ⟨.real _, .eff _, .saved _, ?_⟩⟩
      simpa [hcap] using hown.1
    exact (hcopy.commit (P := GidStep k.capable t.cred) hstep rfl).kept fun _ => id
  · exact (hcopy.abort rfl .EPERM).kept fun _ => id

namespace Syscall

theorem kept_uids {c : Syscall} (hc : c.OnUids) (ns : UserNs) (k : Answers) (t : Task) :
    Kept t (UidStep k.capable t.cred) (c.exec ns k t).2 := by
  cases c with
  | setreuid ruid euid => exact (settled_setreuid ns k ruid euid t).kept fun _ h => h.1
  | setuid uid => exact (settled_setuid ns k uid t).kept fun _ h => h.1
  | setresuid ruid euid suid =>
    exact (settled_setresuid ns k ruid euid suid t).kept fun _ h => h.1
  | setfsuid uid => exact kept_setfsuid ns k uid t
  | setregid | setgid | setresgid | setfsgid => exact hc.elim

theorem kept_gids {c : Syscall} (hc : ¬ c.OnUids) (ns : UserNs) (k : Answers) (t : Task) :
    Kept t (GidStep k.capable t.cred) (c.exec ns k t).2 := by
  cases c with
  | setregid rgid egid => exact (settled_setregid ns k rgid egid t).kept fun _ => id
  | setgid gid => exact (settled_setgid ns k gid t).kept fun _ => id
  | setresgid rgid egid sgid => exact (settled_setresgid ns k rgid egid sgid t).kept fun _ => id
  | setfsgid gid => exact kept_setfsgid ns k gid t
  | setreuid | setuid | setresuid | setfsuid => exact absurd trivial hc

end Syscall

/-! ## Runs -/

namespace Ids

variable {i j l : Ids}

theorem Confines.among (h : i.Confines j) {kid : UInt32} (hkid : j.Among kid) : i.Among kid := by
  rcases hkid with rfl | rfl | rfl
  · exact h.real
  · exact h.eff
  · exact h.saved

theorem Confines.refl (i : Ids) : i.Confines i := ⟨.real i, .eff i, .saved i, Or.inr rfl⟩

theorem Confines.trans (hij : i.Confines j) (hjl : j.Confines l) : i.Confines l where
  real := hij.among hjl.real
  eff := hij.among hjl.eff
  saved := hij.among hjl.saved
  fs := by
    rcases hjl.fs with hown | hfs
    · exact Or.inl (hij.among hown)
    · rw [hfs]
      exact hij.fs

end Ids

variable {t' : Task} {as : List (Syscall × Answers)}

/-- A call confines the numbers that `ids` picks out if what it commits does. -/
theorem Kept.confines (ids : Cred → Ids) (h : Kept t P t')
    (hP : P t'.cred → (ids t.cred).Confines (ids t'.cred)) :
    (ids t.cred).Confines (ids t'.cred) := by
  rcases h.cred with heq | hstep
  · exact heq.symm ▸ Ids.Confines.refl _
  · exact hP hstep

theorem uid_confines {a : Syscall × Answers} (hcap : a.1.OnUids → a.2.capable = false) :
    t.cred.uid.Confines ((program ns).act a t).cred.uid := by
  by_cases hc : a.1.OnUids
  · exact (Syscall.kept_uids hc ns a.2 t).confines Cred.uid fun h => h.confines (hcap hc)
  · exact (Syscall.kept_gids hc ns a.2 t).confines Cred.uid fun h => h.uid.symm ▸ .refl _

theorem gid_confines {a : Syscall × Answers} (hcap : ¬ a.1.OnUids → a.2.capable = false) :
    t.cred.gid.Confines ((program ns).act a t).cred.gid := by
  by_cases hc : a.1.OnUids
  · exact (Syscall.kept_uids hc ns a.2 t).confines Cred.gid fun h => h.gid.symm ▸ .refl _
  · exact (Syscall.kept_gids hc ns a.2 t).confines Cred.gid fun h => h.confines (hcap hc)

/-- What each call without the capability confines, a run without it confines. -/
theorem confines_run (on : Syscall → Prop) (ids : Cred → Ids)
    (hact : ∀ {t : Task} {a : Syscall × Answers}, (on a.1 → a.2.capable = false) →
      (ids t.cred).Confines (ids ((program ns).act a t).cred))
    (hrun : (program ns).Run t as t') (hcap : ∀ a ∈ as, on a.1 → a.2.capable = false) :
    (ids t.cred).Confines (ids t'.cred) := by
  induction hrun with
  | nil t => exact .refl _
  | @cons t t' a as _ _ ih =>
    exact (hact (hcap a List.mem_cons_self)).trans
      (ih fun b hb => hcap b (List.mem_cons_of_mem a hb))

/-- A process that never has `CAP_SETUID` when it calls keeps to the user numbers it has, and
    without `CAP_SETGID` to its group numbers. -/
theorem numbers_confined (ns : UserNs) {t t' : Task} {as : List (Syscall × Answers)}
    (hrun : (program ns).Run t as t') :
    ((∀ a ∈ as, a.1.OnUids → a.2.capable = false) → t.cred.uid.Confines t'.cred.uid) ∧
      ((∀ a ∈ as, ¬ a.1.OnUids → a.2.capable = false) → t.cred.gid.Confines t'.cred.gid) :=
  ⟨confines_run Syscall.OnUids Cred.uid uid_confines hrun,
    confines_run (fun c => ¬ c.OnUids) Cred.gid gid_confines hrun⟩

/-- In the initial user namespace every number stands for itself. -/
def initUserNs : UserNs where
  uids := ⟨id, id, rfl, fun _ _ => rfl, fun _ _ => rfl⟩
  gids := ⟨id, id, rfl, fun _ _ => rfl, fun _ _ => rfl⟩

/-- Nothing fails. -/
def granted (capable : Bool) : Answers := ⟨true, capable, true, false, none⟩

/-- User 1000 has started a program that belongs to user 0 and has the set-user-ID bit. -/
def setuidRoot : Task where
  cred := ⟨⟨1000, 0, 0, 0⟩, ⟨1000, 1000, 1000, 1000⟩, 1000⟩
  nprocExceeded := false
  users uid := if uid = 1000 then 1 else 0

/-- It asks for its real user number, and in vain for the group of user 0. -/
def refusedGroup : List (Syscall × Answers) :=
  [(.setreuid 1000 1000, granted false), (.setresgid 0 0 unchanged, granted false)]

theorem numbers_confined_setuid_root :
    ∃ t', (program initUserNs).Run setuidRoot refusedGroup t' ∧
      t'.cred.uid = ⟨1000, 1000, 1000, 1000⟩ ∧ setuidRoot.cred.uid.Confines t'.cred.uid ∧
        setuidRoot.cred.gid.Confines t'.cred.gid := by
  have hrun : (program initUserNs).Run setuidRoot refusedGroup _ :=
    .cons trivial (.cons trivial (.nil _))
  have h := numbers_confined initUserNs hrun
  exact ⟨_, hrun, by decide, h.1 (by simp [refusedGroup, granted]),
    h.2 (by simp [refusedGroup, granted])⟩

/-! ## The users that are counted -/

theorem users_act (ns : UserNs) (a : Syscall × Answers) (huser : t.cred.user = t.cred.uid.real) :
    ((program ns).act a t).cred.user = ((program ns).act a t).cred.uid.real ∧
      ((program ns).act a t).others = t.others := by
  by_cases hc : a.1.OnUids
  · have hkept := Syscall.kept_uids hc ns a.2 t
    refine ⟨?_, hkept.users⟩
    rcases hkept.cred with heq | hstep
    · exact (congrArg Cred.user heq).trans (huser.trans (congrArg (·.uid.real) heq).symm)
    · refine hstep.user.trans ?_
      split_ifs with hne
      · rfl
      · exact huser.trans (not_not.mp hne).symm
  · have hkept := Syscall.kept_gids hc ns a.2 t
    refine ⟨?_, hkept.users⟩
    rcases hkept.cred with heq | hstep
    · exact (congrArg Cred.user heq).trans (huser.trans (congrArg (·.uid.real) heq).symm)
    · exact hstep.user.trans (huser.trans (congrArg Ids.real hstep.uid).symm)

namespace Syscall

theorem status_error {P : Cred → Prop} {r : Except Errno Unit × Task} (h : Settled t P r)
    {e : Errno} (herr : (status r).1 = .error e) : (status r).2.cred = t.cred := by
  obtain ⟨_ | _, t₁⟩ := r
  · exact h.failed _ rfl
  · cases herr

/-- A call that fails changes no number. -/
theorem exec_error {c : Syscall} {e : Errno} (herr : (c.exec ns k t).1 = .error e) :
    (c.exec ns k t).2.cred = t.cred := by
  cases c with
  | setregid rgid egid => exact status_error (settled_setregid ns k rgid egid t) herr
  | setgid gid => exact status_error (settled_setgid ns k gid t) herr
  | setreuid ruid euid => exact status_error (settled_setreuid ns k ruid euid t) herr
  | setuid uid => exact status_error (settled_setuid ns k uid t) herr
  | setresuid ruid euid suid =>
    exact status_error (settled_setresuid ns k ruid euid suid t) herr
  | setresgid rgid egid sgid =>
    exact status_error (settled_setresgid ns k rgid egid sgid t) herr
  | setfsuid | setfsgid => cases herr

end Syscall

/-- Whatever calls are made, and wherever they fail, the credentials point to the
    `user_struct` of the real user, no reference to one is lost or kept, and a call that fails
    changes no number. -/
theorem users_balanced (ns : UserNs) {t t' : Task} {as : List (Syscall × Answers)}
    (h0 : (program ns).init t) (hrun : (program ns).Run t as t') :
    t'.cred.user = t'.cred.uid.real ∧
      t'.others = t.others ∧
      ∀ (c : Syscall) (k : Answers) (e : Errno), (c.exec ns k t').1 = .error e →
        (c.exec ns k t').2.cred = t'.cred := by
  refine and_assoc.mp ⟨?_, fun _ _ _ => Syscall.exec_error⟩
  have huser : t.cred.user = t.cred.uid.real := h0
  clear h0
  induction hrun with
  | nil t => exact ⟨huser, rfl⟩
  | @cons t t' a as _ _ ih =>
    obtain ⟨hact, husers⟩ := users_act ns a huser
    obtain ⟨hlast, hlasts⟩ := ih hact
    exact ⟨hlast, hlasts.trans husers⟩

theorem users_balanced_setuid_root :
    let t' := (program initUserNs).act (.setuid 0, granted true) setuidRoot
    t'.cred.user = t'.cred.uid.real ∧ t'.others 0 = 0 := by
  have hrun : (program initUserNs).Run setuidRoot [(.setuid 0, granted true)] _ :=
    .cons trivial (.nil _)
  have h := users_balanced initUserNs (t := setuidRoot) rfl hrun
  exact ⟨h.1, congrFun h.2.1 0⟩

end Apes.Kernel
