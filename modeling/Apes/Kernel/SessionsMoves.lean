import Apes.Kernel.SessionsRuns

/-!
# Who moves a process

A process is moved to another group by its own calls, and by its parent as long as it has
not executed a program. Only its own `setsid` takes it to another session, and from there
nothing moves it any more.
-/

namespace Apes.Kernel

open Apes

variable {s s' : Tasks} {a : TaskAction} {as : List TaskAction} {p p' q current : Process} {n : ℕ}

namespace TaskAction

/-- The process `n` is waited for. -/
def Releases (n : ℕ) : TaskAction → Prop
  | .release p => p.pid = n
  | _ => False

/-- The process `n` calls `setsid`. -/
def CallsSetsid (n : ℕ) : TaskAction → Prop
  | .setsid current => current.pid = n
  | _ => False

/-- The process `n` calls `setpgid` for itself. -/
def CallsSetpgid (n : ℕ) : TaskAction → Prop
  | .setpgid _ current pid _ => current.pid = n ∧ targetPid current pid = n
  | _ => False

/-- Somebody calls `setpgid` for the process `n`. -/
def Targets (n : ℕ) : TaskAction → Prop
  | .setpgid _ current pid _ => targetPid current pid = n
  | _ => False

end TaskAction

open TaskAction

/-! ## One step -/

/-- What a step may make of the entry `p` of a process. -/
structure Follows (a : TaskAction) (p p' : Process) : Prop where
  pid : p'.pid = p.pid
  session : p'.session = p.session ∨ p.leader = false ∧ a.CallsSetsid p.pid
  pgrp : p'.pgrp = p.pgrp ∨ p.leader = false ∧ (a.CallsSetsid p.pid ∨
    a.Targets p.pid ∧ (p.forkNoExec = false → a.CallsSetpgid p.pid))
  leader : p'.leader = p.leader ∨ p.leader = false ∧ a.CallsSetsid p.pid
  forkNoExec : p.forkNoExec = false → p'.forkNoExec = false

theorem Follows.refl (a : TaskAction) (p : Process) : Follows a p p :=
  ⟨rfl, Or.inl rfl, Or.inl rfl, Or.inl rfl, id⟩

namespace Tasks

/-- The other processes keep their entries when one is changed. -/
theorem exists_change {p₀ : Process} (hf : p₀.pid = p.pid → Follows a p p₀) (hp : p ∈ s.processes) :
    ∃ p' ∈ (s.change p₀).processes, Follows a p p' := by
  by_cases heq : p₀.pid = p.pid
  · exact ⟨p₀, mem_change.mpr (Or.inl rfl), hf heq⟩
  · exact ⟨p, mem_change.mpr (Or.inr ⟨hp, Ne.symm heq⟩), .refl a p⟩

theorem exists_update {p₀ : Process} (hf : p₀.pid = p.pid → Follows a p p₀) (hp : p ∈ s.processes) :
    ∃ p' ∈ (s.update p₀).processes, Follows a p p' := by
  refine ⟨if p.pid = p₀.pid then p₀ else p, List.mem_map_of_mem hp, ?_⟩
  split_ifs with heq
  · exact hf heq.symm
  · exact .refl a p

end Tasks

open Tasks

theorem exists_follows (hs : s.Sound) (hg : s.guard a) (hp : p ∈ s.processes)
    (hkeep : ¬ a.Releases p.pid) : ∃ p' ∈ (act a s).processes, Follows a p p' := by
  cases a with
  | setpgid security current pid pgid =>
    rcases setpgid_cases hs hg security pid pgid with heq | ⟨q, hq, g, heq, hmay, hlead, hpid, -⟩
    · exact ⟨p, (congrArg processes heq).symm ▸ hp, .refl _ p⟩
    · simp only [act, heq]
      refine exists_change (fun hqp => ?_) hp
      obtain rfl := hs.unique q hq p hp hqp
      refine ⟨rfl, Or.inl rfl, Or.inr ⟨hlead, Or.inr ⟨hpid.symm, fun hexec => ?_⟩⟩, Or.inl rfl, id⟩
      have hown : q.pid = current.pid := hmay.own.resolve_right (by simp [hexec])
      exact ⟨hown.symm, hpid.symm⟩
  | setsid current =>
    rcases setsid_cases current s with ⟨hlead, -, heq⟩ | ⟨-, heq⟩
    · simp only [act, heq]
      refine exists_change (fun hcp => ?_) hp
      obtain rfl := hs.unique current hg p hp hcp
      exact ⟨rfl, Or.inr ⟨hlead, rfl⟩, Or.inr ⟨hlead, Or.inl rfl⟩, Or.inr ⟨hlead, rfl⟩, id⟩
    · simp only [act, heq]
      exact ⟨p, hp, .refl _ p⟩
  | fork => exact ⟨p, List.mem_cons_of_mem _ hp, .refl _ p⟩
  | clone | exitThread => exact ⟨p, hp, .refl _ p⟩
  | exec current =>
    refine exists_update (fun hcp => ?_) hp
    obtain rfl := hs.unique current hg p hp hcp
    exact ⟨rfl, Or.inl rfl, Or.inl rfl, Or.inl rfl, fun _ => rfl⟩
  | reparent q parent =>
    refine exists_update (fun hqp => ?_) hp
    obtain rfl := hs.unique q hg.1 p hp hqp
    exact ⟨rfl, Or.inl rfl, Or.inl rfl, Or.inl rfl, id⟩
  | release q =>
    have hne : p.pid ≠ q.pid := fun heq => hkeep heq.symm
    exact ⟨p, List.mem_filter.mpr ⟨hp, by simpa using hne⟩, .refl _ p⟩

/-! ## Runs -/

/-- A process in the group `g` that has executed a program. -/
structure Process.Placed (g : ℕ) (p : Process) : Prop where
  pgrp : p.pgrp = g
  executed : p.forkNoExec = false

/-- The leader of the session `n`. -/
structure Process.Leads (n : ℕ) (p : Process) : Prop where
  leader : p.leader = true
  session : p.session = n
  pgrp : p.pgrp = n

namespace Follows

/-- The session changes only by the process's own call. -/
theorem session_eq (hf : Follows a p p') (hno : ¬ a.CallsSetsid p.pid) : p'.session = p.session :=
  hf.session.resolve_right fun h => hno h.2

theorem placed {g : ℕ} (hf : Follows a p p') (h : p.Placed g) (hsetsid : ¬ a.CallsSetsid p.pid)
    (hsetpgid : ¬ a.CallsSetpgid p.pid) : p'.Placed g where
  pgrp := by
    refine (hf.pgrp.resolve_right ?_).trans h.pgrp
    rintro ⟨-, hcalls | ⟨-, hcalls⟩⟩
    · exact hsetsid hcalls
    · exact hsetpgid (hcalls h.executed)
  executed := hf.forkNoExec h.executed

/-- Every change but that to `forkNoExec` needs a process that leads no session. -/
theorem leads (hf : Follows a p p') (h : p.Leads n) : p'.Leads n := by
  have hnot {P : Prop} : ¬ (p.leader = false ∧ P) := by simp [h.leader]
  exact ⟨(hf.leader.resolve_right hnot).trans h.leader,
    (hf.session.resolve_right hnot).trans h.session, (hf.pgrp.resolve_right hnot).trans h.pgrp⟩

end Follows

/-- What a run makes of a property of the entry of a process, as long as it is there. -/
theorem exists_run (I : Process → Prop) (hs : s.Sound) (hrun : tasksProgram.Run s as s')
    (hp : p ∈ s.processes) (hi : I p) (hkeep : ∀ a ∈ as, ¬ a.Releases p.pid)
    (hstep : ∀ a ∈ as, ∀ q q', Follows a q q' → q.pid = p.pid → I q → I q') :
    ∃ p' ∈ s'.processes, p'.pid = p.pid ∧ I p' := by
  induction hrun generalizing p with
  | nil => exact ⟨p, hp, rfl, hi⟩
  | @cons s s' a as hg _ ih =>
    obtain ⟨hkeep1, hkeep⟩ := List.forall_mem_cons.mp hkeep
    obtain ⟨hstep1, hstep⟩ := List.forall_mem_cons.mp hstep
    obtain ⟨q, hq, hfollows⟩ := exists_follows hs hg hp hkeep1
    have hpid := hfollows.pid
    rw [← hpid] at hkeep hstep ⊢
    exact ih (hs.step hg) hq (hstep1 p q hfollows rfl hi) hkeep hstep

/-- Along any run from any reachable state, a process that is not waited for keeps its session
    if it does not call `setsid`. Once it has executed a program it also keeps its group, if it
    does not call `setpgid` for itself either; and a session leader keeps both, whatever it and
    others call. -/
theorem moved_by_own_calls (hs : tasksProgram.Reachable s) (hrun : tasksProgram.Run s as s')
    (hp : p ∈ s.processes) (hkeep : ∀ a ∈ as, ¬ a.Releases p.pid) :
    ((∀ a ∈ as, ¬ a.CallsSetsid p.pid) →
      ∃ p' ∈ s'.processes, p'.pid = p.pid ∧ p'.session = p.session) ∧
    (p.forkNoExec = false →
      (∀ a ∈ as, ¬ a.CallsSetsid p.pid ∧ ¬ a.CallsSetpgid p.pid) →
        ∃ p' ∈ s'.processes, p'.pid = p.pid ∧ p'.pgrp = p.pgrp) ∧
    (p.leader = true →
      ∃ p' ∈ s'.processes, p'.pid = p.pid ∧ p'.session = p.pid ∧ p'.pgrp = p.pid) := by
  have hsound := Sound.of_reachable hs
  refine ⟨fun hno => ?_, fun hexec hno => ?_, fun hlead => ?_⟩
  · refine exists_run (·.session = p.session) hsound hrun hp rfl hkeep ?_
    intro a ha q q' hf hpid hsession
    exact (hf.session_eq (hpid ▸ hno a ha)).trans hsession
  · have hplaced : p.Placed p.pgrp := ⟨rfl, hexec⟩
    obtain ⟨p', hp', hpid, h⟩ := exists_run (·.Placed p.pgrp) hsound hrun hp hplaced hkeep
      fun a ha q q' hf hpid h => hf.placed h (hpid ▸ (hno a ha).1) (hpid ▸ (hno a ha).2)
    exact ⟨p', hp', hpid, h.pgrp⟩
  · obtain ⟨hsession, hpgrp⟩ := hsound.leads p hp hlead
    have hleads : p.Leads p.pid := ⟨hlead, hsession, hpgrp⟩
    obtain ⟨p', hp', hpid, h⟩ := exists_run (·.Leads p.pid) hsound hrun hp hleads hkeep
      fun _ _ _ _ hf _ h => hf.leads h
    exact ⟨p', hp', hpid, h.session, h.pgrp⟩

/-- A shell and its child have executed programs, the child in a group of its own. -/
def shellStart : List TaskAction :=
  sessionStart.take 2 ++ [.exec ⟨2, 1, 2, 2, true, true⟩, .fork ⟨2, 1, 2, 2, true, false⟩ 3 false,
    .setpgid none ⟨2, 1, 2, 2, true, false⟩ 3 3, .exec ⟨3, 2, 3, 2, false, true⟩]

/-- The child forks, and the shell tries in vain to move it and to make a new session. -/
def shellRun : List TaskAction :=
  [.fork ⟨3, 2, 3, 2, false, false⟩ 4 false, .setpgid none ⟨2, 1, 2, 2, true, false⟩ 3 2,
    .setsid ⟨2, 1, 2, 2, true, false⟩]

theorem moved_by_own_calls_shell :
    ∃ s', tasksProgram.exec (shellStart ++ shellRun) ⟨[Tasks.init], []⟩ = some s' ∧
      (∃ p ∈ s'.processes, p.pid = 3 ∧ p.session = 2) ∧
      (∃ p ∈ s'.processes, p.pid = 3 ∧ p.pgrp = 3) ∧
      ∃ p ∈ s'.processes, p.pid = 2 ∧ p.session = 2 ∧ p.pgrp = 2 := by
  let shell : Process := ⟨2, 1, 2, 2, true, false⟩
  let child : Process := ⟨3, 2, 3, 2, false, false⟩
  have hinit : tasksProgram.Reachable ⟨[Tasks.init], []⟩ := .init rfl
  have hs := hinit.run (Program.run_of_exec _ shellStart _ rfl)
  have hrun := Program.run_of_exec tasksProgram shellRun ⟨[child, shell, Tasks.init], []⟩ rfl
  have hpc : child ∈ [child, shell, Tasks.init] := List.mem_cons_self ..
  have hps : shell ∈ [child, shell, Tasks.init] := List.mem_cons_of_mem _ (List.mem_cons_self ..)
  have hchild := moved_by_own_calls hs hrun hpc (by simp [shellRun, Releases, child])
  have hshell := moved_by_own_calls hs hrun hps (by simp [shellRun, Releases, shell])
  refine ⟨_, rfl, hchild.1 ?_, hchild.2.1 rfl ?_, hshell.2.2 rfl⟩
  · simp [shellRun, CallsSetsid, child]
  · simp [shellRun, CallsSetsid, CallsSetpgid, child]

/-! ## A child that has not been moved -/

/-- No step makes a group that is named after `n`, but a call of `n` or one that is about it. -/
theorem pgrp_ne_act (hs : s.Sound) (hg : s.guard a) (hn : ∀ q ∈ s.processes, q.pgrp ≠ n)
    (hsetsid : ¬ a.CallsSetsid n) (htarget : ¬ a.Targets n) :
    ∀ q ∈ (act a s).processes, q.pgrp ≠ n := by
  intro q hq
  cases a with
  | setpgid security current pid pgid =>
    rcases setpgid_cases hs hg security pid pgid with
      heq | ⟨p, hp, g, heq, -, -, hpid, hgroup⟩
    · simp only [act, heq] at hq
      exact hn q hq
    · simp only [act, heq] at hq
      rcases mem_change.mp hq with rfl | ⟨hq, -⟩
      · rcases hgroup with rfl | ⟨m, hm, rfl, -⟩
        · intro heq
          exact htarget (heq ▸ hpid.symm)
        · exact hn m hm
      · exact hn q hq
  | setsid current =>
    rcases setsid_cases current s with ⟨-, -, heq⟩ | ⟨-, heq⟩
    · simp only [act, heq] at hq
      rcases mem_change.mp hq with rfl | ⟨hq, -⟩
      · exact hsetsid
      · exact hn q hq
    · simp only [act, heq] at hq
      exact hn q hq
  | fork current =>
    rcases List.mem_cons.mp hq with rfl | hq
    · exact hn current hg.1
    · exact hn q hq
  | clone | exitThread => exact hn q hq
  | exec current =>
    rcases mem_update hq with rfl | ⟨hq, -⟩
    · exact hn current hg
    · exact hn q hq
  | reparent p =>
    rcases mem_update hq with rfl | ⟨hq, -⟩
    · exact hn p hg.1
    · exact hn q hq
  | release p => exact hn q (List.mem_filter.mp hq).1

/-- The invariant of a child that has not been moved. -/
structure Unmoved (n : ℕ) (s : Tasks) : Prop where
  sound : s.Sound
  child : ∃ p ∈ s.processes, p.pid = n ∧ p.leader = false
  pgrp : ∀ q ∈ s.processes, q.pgrp ≠ n

theorem Unmoved.fork (hs : s.Sound) {asSibling : Bool} (hg : s.guard (.fork current n asSibling)) :
    Unmoved n (act (.fork current n asSibling) s) where
  sound := hs.step hg
  child := ⟨_, List.mem_cons_self .., rfl, rfl⟩
  pgrp q hq := by
    obtain ⟨hc, -, hfree, -⟩ := hg
    rcases List.mem_cons.mp hq with rfl | hq
    · exact (hfree current hc).2.1.symm
    · exact (hfree q hq).2.1.symm

theorem Unmoved.step (h : Unmoved n s) (hg : s.guard a) (hkeep : ¬ a.Releases n)
    (hsetsid : ¬ a.CallsSetsid n) (htarget : ¬ a.Targets n) : Unmoved n (act a s) where
  sound := h.sound.step hg
  child := by
    obtain ⟨p, hp, rfl, hleader⟩ := h.child
    obtain ⟨p', hp', hf⟩ := exists_follows h.sound hg hp hkeep
    refine ⟨p', hp', hf.pid, ?_⟩
    exact (hf.leader.resolve_right fun hcalls => hsetsid hcalls.2).trans hleader
  pgrp := pgrp_ne_act h.sound hg h.pgrp hsetsid htarget

theorem Unmoved.run (h : Unmoved n s) (hrun : tasksProgram.Run s as s')
    (hno : ∀ a ∈ as, ¬ a.Releases n ∧ ¬ a.CallsSetsid n ∧ ¬ a.Targets n) : Unmoved n s' := by
  induction hrun with
  | nil => exact h
  | cons hg _ ih =>
    obtain ⟨⟨hkeep, hsetsid, htarget⟩, hno⟩ := List.forall_mem_cons.mp hno
    exact ih (h.step hg hkeep hsetsid htarget) hno

/-- A forked process can make a session: whatever happens after the `fork`, if it is still there
    and has not called `setsid` before, and nobody has called `setpgid` for it, then its `setsid`
    succeeds. -/
theorem child_setsid (hs : tasksProgram.Reachable s) {asSibling : Bool}
    (hg : s.guard (.fork current n asSibling))
    (hrun : tasksProgram.Run (act (.fork current n asSibling) s) as s')
    (hno : ∀ a ∈ as, ¬ a.Releases n ∧ ¬ a.CallsSetsid n ∧ ¬ a.Targets n) :
    ∃ p ∈ s'.processes, p.pid = n ∧ (setsid p s').1 = .ok n := by
  have h := (Unmoved.fork (Sound.of_reachable hs) hg).run hrun hno
  obtain ⟨p, hp, rfl, hleader⟩ := h.child
  refine ⟨p, hp, rfl, ?_⟩
  rcases setsid_cases p s' with ⟨-, -, heq⟩ | ⟨hfails, -⟩
  · rw [heq]
  · rcases hfails with hlead | ⟨q, hq, hgrp⟩
    · exact absurd hlead (by simp [hleader])
    · exact absurd hgrp (h.pgrp q hq)

/-- The first process forks one child and then another one. -/
theorem child_setsid_two_children :
    ∃ s', tasksProgram.exec [.fork Tasks.init 2 false, .fork Tasks.init 3 false]
        ⟨[Tasks.init], []⟩ = some s' ∧
      ∃ p ∈ s'.processes, p.pid = 2 ∧ (setsid p s').1 = .ok 2 := by
  have hinit : tasksProgram.Reachable ⟨[Tasks.init], []⟩ := .init rfl
  have hrun : tasksProgram.Run (act (.fork Tasks.init 2 false) ⟨[Tasks.init], []⟩)
      [.fork Tasks.init 3 false] _ :=
    Program.run_of_exec _ _ _ rfl
  refine ⟨_, rfl, child_setsid hinit (by decide) hrun ?_⟩
  simp [Releases, CallsSetsid, Targets]

end Apes.Kernel
