import Apes.Kernel.Sessions

/-!
# The invariant of groups and sessions

A group lies within one session, and the number of a session is that of the process that
made it, which has led its own group ever since. The permission checks of `setpgid` and
`setsid` are what keeps this so.
-/

namespace Apes.Kernel

open Apes

variable {s : Tasks} {a : TaskAction} {p q current : Process}

namespace Tasks

/-! ## What the tables give -/

theorem mem_of_findLeader {nr : ℤ} (h : s.findLeader nr = some p) :
    p ∈ s.processes ∧ (p.pid : ℤ) = nr :=
  ⟨List.mem_of_find?_eq_some h, by simpa using List.find?_some h⟩

theorem mem_of_groupTask {nr : ℤ} (h : s.groupTask nr = some p) :
    p ∈ s.processes ∧ (p.pgrp : ℤ) = nr :=
  ⟨List.mem_of_find?_eq_some h, by simpa using List.find?_some h⟩

theorem groupTask_eq_none {nr : ℤ} :
    s.groupTask nr = none ↔ ∀ q ∈ s.processes, (q.pgrp : ℤ) ≠ nr := by
  simp [groupTask]

theorem mem_change : q ∈ (s.change p).processes ↔ q = p ∨ q ∈ s.processes ∧ q.pid ≠ p.pid := by
  simp [change]

theorem findLeader_change (nr : ℤ) :
    (s.change p).findLeader nr = if (p.pid : ℤ) = nr then some p else s.findLeader nr := by
  simp only [findLeader, change]
  by_cases heq : (p.pid : ℤ) = nr
  · rw [List.find?_cons_of_pos (by simpa using heq), if_pos heq]
  · rw [List.find?_cons_of_neg (by simpa using heq), if_neg heq, List.find?_filter]
    congr 1
    funext q
    by_cases hq : (q.pid : ℤ) = nr
    · have hne : q.pid ≠ p.pid := by omega
      simp [hq, hne]
    · simp [hq]

theorem mem_update (h : q ∈ (s.update p).processes) :
    q = p ∨ q ∈ s.processes ∧ q.pid ≠ p.pid := by
  obtain ⟨r, hr, rfl⟩ := List.mem_map.mp h
  by_cases hpid : r.pid = p.pid
  · exact Or.inl (if_pos hpid)
  · rw [if_neg hpid]
    exact Or.inr ⟨hr, hpid⟩

/-! ## The invariant -/

structure Sound (s : Tasks) : Prop where
  positive : ∀ p ∈ s.processes, 0 < p.pid
  /-- A process has one entry. -/
  unique : ∀ p ∈ s.processes, ∀ q ∈ s.processes, p.pid = q.pid → p = q
  /-- A group lies within one session, -/
  oneSession : ∀ p ∈ s.processes, ∀ q ∈ s.processes, p.pgrp = q.pgrp → p.session = q.session
  /-- which is that of the process that it is named after, if this is still there. -/
  home : ∀ p ∈ s.processes, ∀ q ∈ s.processes, p.pgrp = q.pid → p.session = q.session
  /-- A session leader is in the session and in the group that are named after it, -/
  leads : ∀ p ∈ s.processes, p.leader = true → p.session = p.pid ∧ p.pgrp = p.pid
  /-- and a process that a session is named after leads it. -/
  named : ∀ p ∈ s.processes, ∀ q ∈ s.processes, p.session = q.pid → q.leader = true

namespace Sound

theorem init : Sound ⟨[Tasks.init], []⟩ := by
  constructor <;> simp [Tasks.init]

/-- What only leaves fewer processes is sound. -/
theorem mono {s' : Tasks} (hs : Sound s) (h : ∀ p ∈ s'.processes, p ∈ s.processes) : Sound s' where
  positive p hp := hs.positive p (h p hp)
  unique p hp q hq := hs.unique p (h p hp) q (h q hq)
  oneSession p hp q hq := hs.oneSession p (h p hp) q (h q hq)
  home p hp q hq := hs.home p (h p hp) q (h q hq)
  leads p hp := hs.leads p (h p hp)
  named p hp q hq := hs.named p (h p hp) q (h q hq)

/-- A new entry for the process `p.pid`, next to those of the other processes. -/
theorem replace {s' : Tasks} (hs : Sound s)
    (h : ∀ q ∈ s'.processes, q = p ∨ q ∈ s.processes ∧ q.pid ≠ p.pid) (hpos : 0 < p.pid)
    (hsession : ∀ q ∈ s.processes, q.pid ≠ p.pid → q.pgrp = p.pgrp → q.session = p.session)
    (hhome : ∀ q ∈ s.processes, q.pid ≠ p.pid →
      (q.pgrp = p.pid → q.session = p.session) ∧ (p.pgrp = q.pid → p.session = q.session))
    (hleads : p.leader = true → p.session = p.pid ∧ p.pgrp = p.pid)
    (hown : p.session = p.pid → p.leader = true)
    (hnamed : ∀ q ∈ s.processes, q.pid ≠ p.pid →
      (q.session = p.pid → p.leader = true) ∧ (p.session = q.pid → q.leader = true)) :
    Sound s' where
  positive q hq := by
    rcases h q hq with rfl | ⟨hq, -⟩
    · exact hpos
    · exact hs.positive q hq
  unique q hq r hr heq := by
    rcases h q hq with rfl | ⟨hq, hqp⟩ <;> rcases h r hr with rfl | ⟨hr, hrp⟩
    · rfl
    · exact absurd heq.symm hrp
    · exact absurd heq hqp
    · exact hs.unique q hq r hr heq
  oneSession q hq r hr heq := by
    rcases h q hq with rfl | ⟨hq, hqp⟩ <;> rcases h r hr with rfl | ⟨hr, hrp⟩
    · rfl
    · exact (hsession r hr hrp heq.symm).symm
    · exact hsession q hq hqp heq
    · exact hs.oneSession q hq r hr heq
  home q hq r hr heq := by
    rcases h q hq with rfl | ⟨hq, hqp⟩ <;> rcases h r hr with rfl | ⟨hr, hrp⟩
    · rfl
    · exact (hhome r hr hrp).2 heq
    · exact (hhome q hq hqp).1 heq
    · exact hs.home q hq r hr heq
  leads q hq hleader := by
    rcases h q hq with rfl | ⟨hq, hqp⟩
    · exact hleads hleader
    · exact hs.leads q hq hleader
  named q hq r hr heq := by
    rcases h q hq with rfl | ⟨hq, hqp⟩ <;> rcases h r hr with rfl | ⟨hr, hrp⟩
    · exact hown heq
    · exact (hnamed r hr hrp).2 heq
    · exact (hnamed q hq hqp).1 heq
    · exact hs.named q hq r hr heq

/-- Other fields than the numbers of a process may change. -/
theorem update (hs : Sound s) (hp : p ∈ s.processes) (hq : q.pid = p.pid) (hgrp : q.pgrp = p.pgrp)
    (hses : q.session = p.session) (hlead : q.leader = p.leader) : Sound (s.update q) := by
  refine hs.replace (fun r hr => mem_update hr) (hq ▸ hs.positive p hp) ?_ ?_ ?_ ?_ ?_
  · intro r hr _ heq
    rw [hses]
    exact hs.oneSession r hr p hp (heq.trans hgrp)
  · intro r hr _
    rw [hq, hgrp, hses]
    exact ⟨hs.home r hr p hp, hs.home p hp r hr⟩
  · rw [hq, hgrp, hses, hlead]
    exact hs.leads p hp
  · rw [hq, hses, hlead]
    exact hs.named p hp p hp
  · intro r hr _
    rw [hq, hses, hlead]
    exact ⟨hs.named r hr p hp, hs.named p hp r hr⟩

theorem fork (hs : Sound s) (hc : current ∈ s.processes) {pid : ℕ} (hfree : s.Free pid)
    (asSibling : Bool) :
    Sound { s with processes := child current pid asSibling :: s.processes } := by
  obtain ⟨hpos, hfree, -⟩ := hfree
  refine hs.replace (p := child current pid asSibling) ?_ hpos ?_ ?_ ?_ ?_ ?_
  · intro q hq
    rcases List.mem_cons.mp hq with rfl | hq
    · exact Or.inl rfl
    · exact Or.inr ⟨hq, fun heq => (hfree q hq).1 heq.symm⟩
  · intro q hq _ heq
    exact hs.oneSession q hq current hc heq
  · intro q hq _
    exact ⟨fun heq => absurd heq.symm (hfree q hq).2.1, fun heq => hs.home current hc q hq heq⟩
  · intro hleader
    cases hleader
  · intro heq
    exact absurd heq.symm (hfree current hc).2.2
  · intro q hq _
    exact ⟨fun heq => absurd heq.symm (hfree q hq).2.2, fun heq => hs.named current hc q hq heq⟩

end Sound

end Tasks

/-! ## What the calls can do -/

/-- `p` is the caller itself, or a child in its session that has not executed a program. -/
structure MayMove (current p : Process) : Prop where
  session : p.session = current.session
  own : p.pid = current.pid ∨ p.realParent = current.pid ∧ p.forkNoExec = true

theorem mayMove_of_checkTarget (hs : s.Sound) (hc : current ∈ s.processes) (hp : p ∈ s.processes)
    (h : checkTarget current p = none) : MayMove current p := by
  unfold checkTarget at h
  by_cases hchild : p.realParent = current.pid
  · by_cases hses : p.session = current.session
    · by_cases hexec : p.forkNoExec = false
      · simp [hchild, hses, hexec] at h
      · exact ⟨hses, Or.inr ⟨hchild, by simpa using hexec⟩⟩
    · simp [hchild, hses] at h
  · by_cases hpid : p.pid = current.pid
    · obtain rfl := hs.unique p hp current hc hpid
      exact ⟨rfl, Or.inl rfl⟩
    · simp [hchild, hpid] at h

/-- The process that `setpgid(pid, _)` is about -/
def targetPid (current : Process) (pid : ℤ) : ℤ := if pid = 0 then current.pid else pid

/-- The group that `setpgid(pid, pgid)` is about -/
def targetPgid (current : Process) (pid pgid : ℤ) : ℤ :=
  if pgid = 0 then targetPid current pid else pgid

/-- `setpgid` fails, or it finds a process that the caller may move, and a group of its own or
    one that is there in the session. -/
theorem setpgid_spec (hs : s.Sound) (hc : current ∈ s.processes) (security : Option Errno)
    (pid pgid : ℤ) :
    (∃ e, setpgid security current pid pgid s = (.error e, s)) ∨
    ∃ p g, s.findLeader (targetPid current pid) = some p ∧ targetPgid current pid pgid = (g : ℕ) ∧
      MayMove current p ∧ p.leader = false ∧
      (g = p.pid ∨ ∃ m ∈ s.processes, m.pgrp = g ∧ m.session = p.session) ∧
      setpgid security current pid pgid s =
        (.ok (), if p.pgrp = g then s else s.change { p with pgrp := g }) := by
  rw [setpgid, ← targetPid, ← targetPgid]
  generalize targetPgid current pid pgid = pgid
  generalize targetPid current pid = pid
  by_cases hneg : pgid < 0
  · exact Or.inl ⟨_, by rw [if_pos hneg]⟩
  rw [if_neg hneg]
  obtain ⟨g, rfl⟩ := Int.eq_ofNat_of_zero_le (not_lt.mp hneg)
  cases hfind : s.findLeader pid with
  | none => exact Or.inl ⟨_, rfl⟩
  | some p =>
    obtain ⟨hp, rfl⟩ := Tasks.mem_of_findLeader hfind
    dsimp only
    cases hcheck : checkTarget current p with
    | some e => exact Or.inl ⟨e, rfl⟩
    | none =>
      have hmay := mayMove_of_checkTarget hs hc hp hcheck
      dsimp only
      by_cases hleader : p.leader = true
      · exact Or.inl ⟨_, by rw [if_pos hleader]⟩
      rw [if_neg hleader]
      by_cases hgroup : (g : ℤ) ≠ p.pid ∧ s.groupInSession current g = false
      · exact Or.inl ⟨_, by rw [if_pos hgroup]⟩
      rw [if_neg hgroup]
      cases security with
      | some e => exact Or.inl ⟨e, rfl⟩
      | none =>
        refine Or.inr ⟨p, g, rfl, rfl, hmay, by simpa using hleader, ?_, ?_⟩
        · by_cases heq : g = p.pid
          · exact Or.inl heq
          · have hne : (g : ℤ) ≠ p.pid := by omega
            have hin : s.groupInSession current g = true := by simpa [hne] using hgroup
            obtain ⟨m, hm, hses⟩ := (Option.any_eq_true _ _).mp hin
            obtain ⟨hmem, hgrp⟩ := Tasks.mem_of_groupTask hm
            refine Or.inr ⟨m, hmem, by omega, ?_⟩
            rw [hmay.session]
            simpa using hses
        · by_cases hsame : p.pgrp = g
          · rw [if_pos hsame]
            exact if_neg (by omega)
          · rw [if_neg hsame]
            exact if_pos (by omega)

theorem setpgid_cases (hs : s.Sound) (hc : current ∈ s.processes) (security : Option Errno)
    (pid pgid : ℤ) :
    (setpgid security current pid pgid s).2 = s ∨
    ∃ p ∈ s.processes, ∃ g : ℕ,
      (setpgid security current pid pgid s).2 = s.change { p with pgrp := g } ∧
      MayMove current p ∧ p.leader = false ∧ (p.pid : ℤ) = targetPid current pid ∧
      (g = p.pid ∨ ∃ m ∈ s.processes, m.pgrp = g ∧ m.session = p.session) := by
  rcases setpgid_spec hs hc security pid pgid with
    ⟨e, heq⟩ | ⟨p, g, hfind, -, hmay, hleader, hgroup, heq⟩
  · exact Or.inl (by rw [heq])
  · obtain ⟨hp, hpid⟩ := Tasks.mem_of_findLeader hfind
    by_cases hsame : p.pgrp = g
    · exact Or.inl (by rw [heq, if_pos hsame])
    · refine Or.inr ⟨p, hp, g, ?_, hmay, hleader, hpid, hgroup⟩
      rw [heq, if_neg hsame]

theorem setSpecialPids_eq (p : Process) (n : ℕ) :
    setSpecialPids p n = { p with session := n, pgrp := n } := by
  obtain ⟨pid, realParent, pgrp, session, leader, forkNoExec⟩ := p
  by_cases hses : session = n <;> by_cases hgrp : pgrp = n <;>
    simp [setSpecialPids, hses, hgrp]

/-- The entry of `current` after its `setsid` -/
def newLeader (current : Process) : Process :=
  { current with leader := true, session := current.pid, pgrp := current.pid }

/-- `setsid` succeeds exactly where the caller leads no session and no group is named after
    it. -/
theorem setsid_cases (current : Process) (s : Tasks) :
    (current.leader = false ∧ (∀ q ∈ s.processes, q.pgrp ≠ current.pid) ∧
      setsid current s = (.ok current.pid, s.change (newLeader current))) ∨
    ((current.leader = true ∨ ∃ q ∈ s.processes, q.pgrp = current.pid) ∧
      setsid current s = (.error .EPERM, s)) := by
  unfold setsid
  cases hleader : current.leader with
  | true => exact Or.inr ⟨Or.inl rfl, rfl⟩
  | false =>
    rw [if_neg (by decide)]
    cases hgroup : s.groupTask current.pid with
    | some q =>
      obtain ⟨hq, heq⟩ := Tasks.mem_of_groupTask hgroup
      exact Or.inr ⟨Or.inr ⟨q, hq, by omega⟩, rfl⟩
    | none =>
      refine Or.inl ⟨rfl, fun q hq heq => ?_, ?_⟩
      · exact Tasks.groupTask_eq_none.mp hgroup q hq (by omega)
      · rw [if_neg (by simp), setSpecialPids_eq]
        rfl

namespace Tasks.Sound

theorem setpgid (hs : s.Sound) (hc : current ∈ s.processes) (security : Option Errno)
    (pid pgid : ℤ) : (Kernel.setpgid security current pid pgid s).2.Sound := by
  rcases setpgid_cases hs hc security pid pgid with heq | ⟨p, hp, g, heq, -, hleader, -, hgroup⟩
  · rwa [heq]
  have hses (q : Process) (hq : q ∈ s.processes) (hg : q.pgrp = g) : q.session = p.session := by
    rcases hgroup with rfl | ⟨m, hm, hmg, hms⟩
    · exact hs.home q hq p hp hg
    · exact (hs.oneSession q hq m hm (hg.trans hmg.symm)).trans hms
  rw [heq]
  refine hs.replace (fun q hq => mem_change.mp hq) (hs.positive p hp) ?_ ?_ ?_ ?_ ?_
  · intro q hq _ hg
    exact hses q hq hg
  · intro q hq hne
    refine ⟨hs.home q hq p hp, fun hg => ?_⟩
    rcases hgroup with rfl | ⟨m, hm, hmg, hms⟩
    · exact absurd hg.symm hne
    · exact hms.symm.trans (hs.home m hm q hq (hmg.trans hg))
  · intro hlead
    exact absurd hlead (by simp [hleader])
  · exact hs.named p hp p hp
  · intro q hq _
    exact ⟨hs.named q hq p hp, hs.named p hp q hq⟩

/-- Where the caller of `setsid` leads no session, nobody is in one that is named after it. -/
theorem session_ne (hs : s.Sound) (hc : current ∈ s.processes) (hleader : current.leader = false)
    (hq : q ∈ s.processes) : q.session ≠ current.pid := fun heq => by
  have hlead := hs.named q hq current hc heq
  exact absurd hlead (by simp [hleader])

theorem setsid (hs : s.Sound) (hc : current ∈ s.processes) : (Kernel.setsid current s).2.Sound := by
  rcases setsid_cases current s with ⟨hleader, hgroup, heq⟩ | ⟨-, heq⟩
  · rw [heq]
    refine hs.replace (fun q hq => mem_change.mp hq) (hs.positive current hc) ?_ ?_ ?_ ?_ ?_
    · intro q hq _ hg
      exact absurd hg (hgroup q hq)
    · intro q hq hne
      exact ⟨fun hg => absurd hg (hgroup q hq), fun hg => absurd hg.symm hne⟩
    · exact fun _ => ⟨rfl, rfl⟩
    · exact fun _ => rfl
    · intro q hq hne
      have hother : q.session ≠ current.pid := hs.session_ne hc hleader hq
      exact ⟨fun hses => absurd hses hother, fun hses => absurd hses.symm hne⟩
  · rwa [heq]

theorem step (hs : s.Sound) (hg : s.guard a) : (act a s).Sound := by
  cases a with
  | setpgid security current pid pgid => exact hs.setpgid hg security pid pgid
  | setsid current => exact hs.setsid hg
  | fork current pid asSibling => exact hs.fork hg.1 hg.2 asSibling
  | clone | exitThread => exact hs.mono fun p hp => hp
  | exec current =>
    have hupdate := hs.update (q := { current with forkNoExec := false }) hg rfl rfl rfl rfl
    exact hupdate.mono fun p hp => hp
  | reparent p parent => exact hs.update hg.1 rfl rfl rfl rfl
  | release p => exact hs.mono fun q hq => (List.mem_filter.mp hq).1

theorem of_reachable (hs : tasksProgram.Reachable s) : s.Sound := by
  refine hs.invariant ?_ fun _ _ _ hi hg => hi.step hg
  rintro s rfl
  exact init

end Tasks.Sound

/-- In whatever order processes fork, execute programs, exit and call `setpgid` and `setsid`: a
    group lies within one session, which is that of the process it is named after; a session
    leader is in the session and in the group that are named after it; and a process that a
    session is named after leads it. -/
theorem sessions_sound (hs : tasksProgram.Reachable s) :
    (∀ p ∈ s.processes, ∀ q ∈ s.processes,
      p.pgrp = q.pgrp ∨ p.pgrp = q.pid → p.session = q.session) ∧
    (∀ p ∈ s.processes, p.leader = true → p.session = p.pid ∧ p.pgrp = p.pid) ∧
    ∀ p ∈ s.processes, ∀ q ∈ s.processes, p.session = q.pid → q.leader = true := by
  have hsound := Tasks.Sound.of_reachable hs
  refine ⟨fun p hp q hq h => ?_, hsound.leads, hsound.named⟩
  rcases h with hgrp | hpid
  · exact hsound.oneSession p hp q hq hgrp
  · exact hsound.home p hp q hq hpid

/-- The first process forks one that makes a session, forks another one and gives it a group
    of its own. -/
def sessionStart : List TaskAction :=
  [.fork Tasks.init 2 false, .setsid ⟨2, 1, 0, 0, false, true⟩,
    .fork ⟨2, 1, 2, 2, true, true⟩ 3 false, .setpgid none ⟨2, 1, 2, 2, true, true⟩ 3 0]

theorem sessions_sound_two_groups :
    ∃ s, tasksProgram.exec sessionStart ⟨[Tasks.init], []⟩ = some s ∧
      s.processes = [⟨3, 2, 3, 2, false, true⟩, ⟨2, 1, 2, 2, true, true⟩, Tasks.init] ∧
      ∀ p ∈ s.processes, p.leader = true → p.session = p.pid ∧ p.pgrp = p.pid := by
  refine ⟨_, rfl, rfl, ?_⟩
  have hinit : tasksProgram.Reachable ⟨[Tasks.init], []⟩ := .init rfl
  exact (sessions_sound (hinit.run (Program.run_of_exec _ sessionStart _ rfl))).2.1

/-- `getsid` reads only the sessions of the processes. -/
theorem getsid_congr {s s' : Tasks} (hthreads : s'.threads = s.threads)
    (hsession : ∀ nr, (s'.findLeader nr).map Process.session =
      (s.findLeader nr).map Process.session) (reader : Process) {nr : ℤ} (hnr : nr ≠ 0) :
    getsid none reader nr s' = getsid none reader nr s := by
  have heq (s : Tasks) : getsid none reader nr s =
      match ((s.findLeader nr).or (s.findThread nr)).map Process.session with
      | none => .error .ESRCH
      | some n => .ok n := by
    rw [getsid, readNumber, if_neg hnr]
    cases (s.findLeader nr).or (s.findThread nr) <;> rfl
  have hfound : ((s'.findLeader nr).or (s'.findThread nr)).map Process.session =
      ((s.findLeader nr).or (s.findThread nr)).map Process.session := by
    simp only [Option.map_or, hsession, Tasks.findThread, hthreads, Option.map_bind,
      Function.comp_def]
  rw [heq, heq, hfound]

/-- What a successful `setpgid` has set, everybody reads with `getpgid`; and `getsid` reads the
    same of every task as before. -/
theorem setpgid_read_back (hs : tasksProgram.Reachable s) (hc : current ∈ s.processes)
    (security : Option Errno) (pid pgid : ℤ)
    (hok : (setpgid security current pid pgid s).1 = .ok ()) (reader : Process) :
    let s' := (setpgid security current pid pgid s).2
    (∃ g : ℕ, targetPgid current pid pgid = g ∧
      getpgid none reader (targetPid current pid) s' = .ok g) ∧
    ∀ nr ≠ 0, getsid none reader nr s' = getsid none reader nr s := by
  intro s'
  have hsound := Tasks.Sound.of_reachable hs
  rcases setpgid_spec hsound hc security pid pgid with
    ⟨e, heq⟩ | ⟨p, g, hfind, hg, -, -, -, heq⟩
  · rw [heq] at hok
    cases hok
  obtain ⟨hp, hpid⟩ := Tasks.mem_of_findLeader hfind
  have hne : targetPid current pid ≠ 0 := by
    have := hsound.positive p hp
    omega
  have hs' : s' = if p.pgrp = g then s else s.change { p with pgrp := g } := congrArg Prod.snd heq
  by_cases hsame : p.pgrp = g
  · rw [if_pos hsame] at hs'
    refine ⟨⟨g, hg, ?_⟩, fun nr _ => by rw [hs']⟩
    rw [getpgid, readNumber, if_neg hne, hs', hfind, ← hsame]
    rfl
  · rw [if_neg hsame] at hs'
    constructor
    · refine ⟨g, hg, ?_⟩
      rw [getpgid, readNumber, if_neg hne, hs', Tasks.findLeader_change, if_pos hpid]
      rfl
    · refine fun nr hnr => getsid_congr (by rw [hs']; rfl) (fun nr => ?_) reader hnr
      rw [hs', Tasks.findLeader_change]
      by_cases hnr : (p.pid : ℤ) = nr
      · rw [if_pos hnr, ← hnr, hpid, hfind]
        rfl
      · rw [if_neg hnr]

theorem setpgid_read_back_child :
    getpgid none Tasks.init 2
      (setpgid none Tasks.init 2 0 ⟨[⟨2, 1, 0, 0, false, true⟩, Tasks.init], []⟩).2 = .ok 2 := by
  have hinit : tasksProgram.Reachable ⟨[Tasks.init], []⟩ := .init rfl
  have hs := hinit.run (Program.run_of_exec _ [.fork Tasks.init 2 false] _ rfl)
  have hc : Tasks.init ∈ [⟨2, 1, 0, 0, false, true⟩, Tasks.init] := by decide
  obtain ⟨⟨g, hg, hread⟩, -⟩ := setpgid_read_back hs hc none 2 0 rfl Tasks.init
  have htarget : targetPgid Tasks.init 2 0 = 2 := rfl
  obtain rfl : g = 2 := by omega
  exact hread

/-- `setsid` succeeds exactly where no group is named after the caller (to lead no session is
    not a condition of its own), and then the caller is alone in its new session and group. -/
theorem setsid_alone (hs : tasksProgram.Reachable s) (hc : current ∈ s.processes) :
    ((setsid current s).1 = .ok current.pid ↔ ∀ q ∈ s.processes, q.pgrp ≠ current.pid) ∧
    ((setsid current s).1 = .ok current.pid → ∀ q ∈ (setsid current s).2.processes,
      (q.session = current.pid ↔ q.pid = current.pid) ∧
        (q.pgrp = current.pid ↔ q.pid = current.pid)) := by
  have hsound := Tasks.Sound.of_reachable hs
  rcases setsid_cases current s with ⟨hleader, hgroup, heq⟩ | ⟨hfails, heq⟩
  · refine ⟨iff_of_true (by rw [heq]) hgroup, fun _ q hq => ?_⟩
    rw [heq] at hq
    rcases Tasks.mem_change.mp hq with rfl | ⟨hq, hne⟩
    · exact ⟨iff_of_true rfl rfl, iff_of_true rfl rfl⟩
    · have hpid : q.pid ≠ current.pid := hne
      exact ⟨iff_of_false (hsound.session_ne hc hleader hq) hpid,
        iff_of_false (hgroup q hq) hpid⟩
  · have herror : (setsid current s).1 ≠ .ok current.pid := by
      rw [heq]
      exact fun h => by cases h
    refine ⟨iff_of_false herror fun hgroup => ?_, fun hok => absurd hok herror⟩
    rcases hfails with hleader | ⟨q, hq, hgrp⟩
    · exact hgroup current hc (hsound.leads current hc hleader).2
    · exact hgroup q hq hgrp

theorem setsid_alone_child :
    let s : Tasks := ⟨[⟨2, 1, 0, 0, false, true⟩, Tasks.init], []⟩
    (setsid ⟨2, 1, 0, 0, false, true⟩ s).1 = .ok 2 := by
  intro s
  have hinit : tasksProgram.Reachable ⟨[Tasks.init], []⟩ := .init rfl
  have hs := hinit.run (Program.run_of_exec _ [.fork Tasks.init 2 false] _ rfl)
  exact (setsid_alone hs (List.mem_cons_self ..)).1.mpr (by decide)

end Apes.Kernel
