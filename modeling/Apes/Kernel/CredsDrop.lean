import Apes.Kernel.CredsRuns

/-!
# Giving up privileges, and getting them back

A process that makes its real, effective and saved user numbers the same one keeps to this
number. One that only exchanges its real and its effective number can exchange them back.
-/

namespace Apes.Kernel

open Apes

variable {ns : UserNs} {k : Answers} {t t' : Task} {c : Syscall} {uid : UInt32}

theorem status_ok {r : Except Errno Unit × Task} {x : UInt32}
    (h : (Syscall.status r).1 = .ok x) : r.1 = .ok () := by
  obtain ⟨_ | _, t⟩ := r
  · cases h
  · rfl

theorem asked_of_ne {id kid was : UInt32} (h : id ≠ unchanged) : asked id kid was = kid := if_pos h

/-! ## For good -/

/-- The calls that make all user numbers `uid`. -/
def DropsTo (k : Answers) (uid : UInt32) : Syscall → Prop
  | .setuid u => u = uid ∧ k.capable = true
  | .setreuid r e => r = uid ∧ e = uid ∧ uid ≠ unchanged
  | .setresuid r e s => r = uid ∧ e = uid ∧ s = uid ∧ uid ≠ unchanged
  | _ => False

theorem uid_of_dropsTo (hc : DropsTo k uid c) {x : UInt32} (hok : (c.exec ns k t).1 = .ok x) :
    (c.exec ns k t).2.cred.uid =
      ⟨ns.makeKuid uid, ns.makeKuid uid, ns.makeKuid uid, ns.makeKuid uid⟩ := by
  cases c with
  | setuid u =>
    obtain ⟨rfl, hcap⟩ := hc
    have hdone := ((settled_setuid ns k u t).done (status_ok hok)).2
    rwa [suids, if_pos hcap] at hdone
  | setreuid r e =>
    obtain ⟨rfl, rfl, hne⟩ := hc
    have hdone := ((settled_setreuid ns k e e t).done (status_ok hok)).2
    refine hdone.trans ?_
    simp only [reuids, asked_of_ne hne, ne_eq, hne, not_false_eq_true, true_or, if_true]
  | setresuid r e s =>
    obtain ⟨rfl, rfl, rfl, hne⟩ := hc
    have hdone := ((settled_setresuid ns k s s s t).done (status_ok hok)).2
    refine hdone.trans ?_
    simp only [resuids, asked_of_ne hne]
  | _ => exact hc.elim

theorem Ids.Confines.eq_of_same {i : Ids} {kid : UInt32} (h : Ids.Confines ⟨kid, kid, kid, kid⟩ i) :
    i = ⟨kid, kid, kid, kid⟩ := by
  obtain ⟨hreal, heff, hsaved, hfs⟩ := h
  obtain ⟨real, eff, saved, fs⟩ := i
  simp only [Ids.Among, or_self] at hreal heff hsaved hfs
  rw [hreal, heff, hsaved, hfs]

/-- Once a call has made all user numbers `uid`, they stay so in every run in which the
    process does not have `CAP_SETUID` again. -/
theorem dropped_for_good (ns : UserNs) {t t' : Task} {c : Syscall} {k : Answers} {uid : UInt32}
    {as : List (Syscall × Answers)} (hc : DropsTo k uid c) (hok : (c.exec ns k t).1 = .ok 0)
    (hcap : ∀ a ∈ as, a.1.OnUids → a.2.capable = false)
    (hrun : (program ns).Run (c.exec ns k t).2 as t') :
    t'.cred.uid = ⟨ns.makeKuid uid, ns.makeKuid uid, ns.makeKuid uid, ns.makeKuid uid⟩ := by
  have hconf := confines_run Syscall.OnUids Cred.uid uid_confines hrun hcap
  rw [uid_of_dropsTo hc hok] at hconf
  exact hconf.eq_of_same

theorem dropped_for_good_setuid_root :
    let t' := ((setuid initUserNs (granted true) 1000 setuidRoot).2)
    ((program initUserNs).act (.setuid 0, granted false) t').cred.uid =
      ⟨1000, 1000, 1000, 1000⟩ := by
  intro t'
  have hrun : (program initUserNs).Run t' [(.setuid 0, granted false)] _ :=
    .cons trivial (.nil _)
  exact dropped_for_good initUserNs (c := .setuid 1000) (k := granted true) (t := setuidRoot)
    ⟨rfl, rfl⟩ rfl (by simp [granted]) hrun

/-! ## For a while -/

theorem Answers.Grants.fixAndCommit (hk : k.Grants) (new : Cred) (t : Task) :
    fixAndCommit k new t = (.ok (), t.commitCreds new) := by
  rw [Kernel.fixAndCommit, hk.fixSetuid]

/-- `set_user` does not fail. -/
theorem Answers.Grants.setUser_ne_none (hk : k.Grants) {c : Prop} [Decidable c] {new : Cred} :
    (if c then setUser k new t else some (new, t)) ≠ none := by
  unfold setUser
  split_ifs with hc ha
  · simp
  · exact absurd hk.allocUid ha
  · simp

/-- `setreuid` does not fail where it needs no capability. -/
theorem setreuid_ok (hk : k.Grants) {ruid euid : UInt32}
    (hr : ruid ≠ unchanged → ns.makeKuid ruid ≠ invalid ∧
      (t.cred.uid.real = ns.makeKuid ruid ∨ t.cred.uid.eff = ns.makeKuid ruid))
    (he : euid ≠ unchanged → ns.makeKuid euid ≠ invalid ∧ t.cred.uid.Among (ns.makeKuid euid)) :
    (setreuid ns k ruid euid t).1 = .ok () := by
  unfold setreuid
  dsimp only
  rw [if_neg fun h => (hr h.1).1 h.2, if_neg fun h => (he h.1).1 h.2,
    if_neg (by simp [hk.prepareCreds]), if_neg, if_neg]
  · split
    · next hnone => exact absurd hnone hk.setUser_ne_none
    · rw [hk.fixAndCommit]
  · rintro ⟨hne, hreal, heff, hsaved, -⟩
    rcases (he hne).2 with h | h | h
    · exact hreal h.symm
    · exact heff h.symm
    · exact hsaved h.symm
  · rintro ⟨hne, hreal, heff, -⟩
    exact (hr hne).2.elim hreal heff

namespace IdMap

variable {m : IdMap} {id kid was overflow : UInt32}

/-- A number that is mapped back is mapped. -/
theorem make_fromKid_ne (h : m.fromKid kid ≠ unchanged) : m.make (m.fromKid kid) ≠ invalid := by
  rw [m.make_from kid h]
  rintro rfl
  exact h m.from_invalid

/-- A number that was asked for is read back. -/
theorem munged_asked (hvalid : id ≠ unchanged → m.make id ≠ invalid) :
    m.munged overflow (asked id (m.make id) was) = asked id id (m.munged overflow was) := by
  by_cases hne : id ≠ unchanged
  · rw [asked_of_ne hne, asked_of_ne hne, munged, m.from_make id (hvalid hne), if_neg hne]
  · rw [asked, asked, if_neg hne, if_neg hne]

/-- A caller that is shown a number may ask for it, and it stands for the same. -/
theorem munged_of_mapped (h : m.fromKid kid ≠ unchanged) :
    m.munged overflow kid ≠ unchanged ∧ m.make (m.munged overflow kid) = kid ∧
      m.make (m.munged overflow kid) ≠ invalid := by
  rw [munged, if_neg h]
  exact ⟨h, m.make_from kid h, make_fromKid_ne h⟩

end IdMap

/-- A process whose numbers are mapped may exchange its real and its effective one without any
    capability, and exchange them back; its saved number is then the effective one. -/
theorem swapped_back (ns : UserNs) (k k' : Answers) (t : Task) (hk : k.Grants) (hk' : k'.Grants)
    (hr : ns.uids.fromKid t.cred.uid.real ≠ unchanged)
    (he : ns.uids.fromKid t.cred.uid.eff ≠ unchanged) :
    let ruid := ns.uids.fromKid t.cred.uid.real
    let euid := ns.uids.fromKid t.cred.uid.eff
    let swapped := setreuid ns k euid ruid t
    let back := setreuid ns k' ruid euid swapped.2
    swapped.1 = .ok () ∧
      swapped.2.cred.uid =
        ⟨t.cred.uid.eff, t.cred.uid.real, t.cred.uid.real, t.cred.uid.real⟩ ∧
      back.1 = .ok () ∧
      back.2.cred.uid =
        ⟨t.cred.uid.real, t.cred.uid.eff, t.cred.uid.eff, t.cred.uid.eff⟩ := by
  intro ruid euid swapped back
  have hmaker : ns.makeKuid ruid = t.cred.uid.real := ns.uids.make_from _ hr
  have hmakee : ns.makeKuid euid = t.cred.uid.eff := ns.uids.make_from _ he
  have hvalidr : ns.makeKuid ruid ≠ invalid := IdMap.make_fromKid_ne hr
  have hvalide : ns.makeKuid euid ≠ invalid := IdMap.make_fromKid_ne he
  have hswap : swapped.1 = .ok () := by
    refine setreuid_ok hk (fun _ => ⟨hvalide, Or.inr hmakee.symm⟩) fun _ => ⟨hvalidr, ?_⟩
    exact hmaker ▸ .real _
  have huid : swapped.2.cred.uid =
      ⟨t.cred.uid.eff, t.cred.uid.real, t.cred.uid.real, t.cred.uid.real⟩ := by
    refine ((settled_setreuid ns k euid ruid t).done hswap).2.trans ?_
    simp only [reuids, asked_of_ne hr, asked_of_ne he, ne_eq, he, not_false_eq_true, true_or,
      if_true, ruid, euid, hmaker, hmakee]
  have hback : back.1 = .ok () := by
    refine setreuid_ok hk' (fun _ => ⟨hvalidr, ?_⟩) fun _ => ⟨hvalide, ?_⟩
    · rw [huid, hmaker]
      exact Or.inr rfl
    · rw [huid, hmakee]
      exact Or.inl rfl
  refine ⟨hswap, huid, hback, ((settled_setreuid ns k' ruid euid swapped.2).done hback).2.trans ?_⟩
  simp only [reuids, asked_of_ne hr, asked_of_ne he, ne_eq, hr, not_false_eq_true, true_or,
    if_true, ruid, euid, hmaker, hmakee]

theorem swapped_back_setuid_root :
    (setreuid initUserNs (granted false) 0 1000 setuidRoot).1 = .ok () ∧
      (setreuid initUserNs (granted false) 1000 0
        (setreuid initUserNs (granted false) 0 1000 setuidRoot).2).2.cred.uid =
        ⟨1000, 0, 0, 0⟩ := by
  have h := swapped_back initUserNs (granted false) (granted false) setuidRoot ⟨rfl, rfl, rfl⟩
    ⟨rfl, rfl, rfl⟩ (by decide) (by decide)
  exact ⟨h.1, h.2.2.2⟩

/-! ## What is set and what is read back -/

/-- `setresuid` sets only numbers that are mapped. -/
theorem valid_of_setresuid {ruid euid suid : UInt32}
    (hok : (setresuid ns k ruid euid suid t).1 = .ok ()) :
    (ruid ≠ unchanged → ns.makeKuid ruid ≠ invalid) ∧
      (euid ≠ unchanged → ns.makeKuid euid ≠ invalid) ∧
      (suid ≠ unchanged → ns.makeKuid suid ≠ invalid) := by
  unfold setresuid at hok
  dsimp only at hok
  split at hok
  · cases hok
  next hr =>
  split at hok
  · cases hok
  next he =>
  split at hok
  · cases hok
  next hs =>
  exact ⟨fun hne hinv => hr ⟨hne, hinv⟩, fun hne hinv => he ⟨hne, hinv⟩,
    fun hne hinv => hs ⟨hne, hinv⟩⟩

/-- `setresuid` does not fail for the numbers of the process, and `fsuid` becomes `euid`. -/
theorem setresuid_own (hk : k.Grants) {ruid euid suid : UInt32}
    (hr : ns.makeKuid ruid = t.cred.uid.real) (hrv : ns.makeKuid ruid ≠ invalid)
    (he : ns.makeKuid euid = t.cred.uid.eff) (hev : ns.makeKuid euid ≠ invalid)
    (hs : ns.makeKuid suid = t.cred.uid.saved) (hsv : ns.makeKuid suid ≠ invalid) :
    setresuid ns k ruid euid suid t =
      (.ok (), { t with
        cred := { t.cred with uid := { t.cred.uid with fs := t.cred.uid.eff } } }) := by
  have hasked : ∀ id kid : UInt32, asked id kid kid = kid := fun id kid => ite_self kid
  unfold setresuid
  dsimp only
  rw [if_neg fun h => hrv h.2, if_neg fun h => hev h.2, if_neg fun h => hsv h.2,
    if_neg (by simp [hk.prepareCreds])]
  simp [hr, he, hs, hasked, hk.fixAndCommit, Ids.Among, Task.commitCreds, Task.freeUid,
    Task.prepareCreds, Task.getUid, freeUser_getUser]

/-- `getresuid` reads the numbers that `setresuid` has set, and the old ones where it was asked
    to leave them; and `setresuid` accepts the numbers that `getresuid` reads, where they are
    mapped, without any capability, and changes nothing but `fsuid` then, to `euid`. -/
theorem resuid_round_trip (ns : UserNs) (k : Answers) (t : Task) :
    (∀ ruid euid suid, (setresuid ns k ruid euid suid t).1 = .ok () →
      getresuid ns (fun _ => true) (setresuid ns k ruid euid suid t).2 =
          (.ok (), [asked ruid ruid (ns.fromKuidMunged t.cred.uid.real),
            asked euid euid (ns.fromKuidMunged t.cred.uid.eff),
            asked suid suid (ns.fromKuidMunged t.cred.uid.saved)]) ∧
        (setresuid ns k ruid euid suid t).2.cred.gid = t.cred.gid) ∧
    ∀ ruid euid suid, k.Grants → ns.uids.fromKid t.cred.uid.real ≠ unchanged →
      ns.uids.fromKid t.cred.uid.eff ≠ unchanged →
      ns.uids.fromKid t.cred.uid.saved ≠ unchanged →
      getresuid ns (fun _ => true) t = (.ok (), [ruid, euid, suid]) →
      (setresuid ns k ruid euid suid t).1 = .ok () ∧
        (setresuid ns k ruid euid suid t).2 =
          { t with cred := { t.cred with uid := { t.cred.uid with fs := t.cred.uid.eff } } } := by
  constructor
  · intro ruid euid suid hok
    obtain ⟨hr, he, hs⟩ := valid_of_setresuid hok
    obtain ⟨hstep, huid⟩ := (settled_setresuid ns k ruid euid suid t).done hok
    refine ⟨?_, hstep.gid⟩
    simp only [getresuid, putThree, if_true, huid, resuids, UserNs.fromKuidMunged,
      UserNs.makeKuid, IdMap.munged_asked hr, IdMap.munged_asked he, IdMap.munged_asked hs]
  · intro ruid euid suid hk hr he hs hget
    simp only [getresuid, putThree, if_true, Prod.mk.injEq, List.cons.injEq, true_and,
      and_true] at hget
    obtain ⟨rfl, rfl, rfl⟩ := hget
    obtain ⟨-, hmaker, hvalidr⟩ := IdMap.munged_of_mapped hr
    obtain ⟨-, hmakee, hvalide⟩ := IdMap.munged_of_mapped he
    obtain ⟨-, hmakes, hvalids⟩ := IdMap.munged_of_mapped hs
    have hown := setresuid_own hk hmaker hvalidr hmakee hvalide hmakes hvalids
    exact ⟨congrArg Prod.fst hown, congrArg Prod.snd hown⟩

theorem resuid_round_trip_setuid_root :
    getresuid initUserNs (fun _ => true)
        (setresuid initUserNs (granted false) 0 1000 unchanged setuidRoot).2 =
        (.ok (), [0, 1000, 0]) ∧
      (setresuid initUserNs (granted false) 1000 0 0 setuidRoot).1 = .ok () ∧
      (setresuid initUserNs (granted false) 1000 0 0 setuidRoot).2 = setuidRoot := by
  obtain ⟨hset, hread⟩ := resuid_round_trip initUserNs (granted false) setuidRoot
  exact ⟨(hset 0 1000 unchanged rfl).1,
    hread 1000 0 0 ⟨rfl, rfl, rfl⟩ (by decide) (by decide) (by decide) rfl⟩

/-- `getresgid` reads the numbers that `setresgid` has set, and the old ones where it was asked
    to leave them. -/
theorem getresgid_setresgid {rgid egid sgid : UInt32}
    (hok : (setresgid ns k rgid egid sgid t).1 = .ok ()) :
    getresgid ns (fun _ => true) (setresgid ns k rgid egid sgid t).2 =
      (.ok (), [asked rgid rgid (ns.fromKgidMunged t.cred.gid.real),
        asked egid egid (ns.fromKgidMunged t.cred.gid.eff),
        asked sgid sgid (ns.fromKgidMunged t.cred.gid.saved)]) := by
  unfold setresgid at hok ⊢
  dsimp only at hok ⊢
  split at hok
  · cases hok
  next hr =>
  split at hok
  · cases hok
  next he =>
  split at hok
  · cases hok
  next hs =>
  split at hok
  · cases hok
  next hcreds =>
  split at hok
  · cases hok
  next hown =>
  rw [if_neg hr, if_neg he, if_neg hs, if_neg hcreds, if_neg hown]
  simp only [getresgid, putThree, if_true, Task.commitCreds, UserNs.fromKgidMunged,
    UserNs.makeKgid, IdMap.munged_asked fun hne hinv => hr ⟨hne, hinv⟩,
    IdMap.munged_asked fun hne hinv => he ⟨hne, hinv⟩,
    IdMap.munged_asked fun hne hinv => hs ⟨hne, hinv⟩]

end Apes.Kernel
