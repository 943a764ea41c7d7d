import Apes.Kernel.Rlimits

/-!
# What the limits keep

No limit is stored that `do_prlimit` has not checked, but the one second that it puts for a
CPU limit of zero can exceed the hard limit. Without `CAP_SYS_RESOURCE` hard limits only
fall, and only a process of the same user can change the limits of another one.
-/

namespace Apes.Kernel

open Apes

variable {γ : Type} [DecidableEq γ] {arch : Arch} {cfg : LimitConfig} {k : LimitAnswers}
  {s s' : Limits arch γ} {g : γ} {resource : ℕ} {new : Rlimit arch.bits}

/-! ## What a call can store -/

/-- A call has stored the limit `new` for the process `g`. -/
structure Stores (cfg : LimitConfig) (capable : Bool) (g : γ) (resource : ℕ)
    (new : Rlimit arch.bits) (s s' : Limits arch γ) : Prop where
  resource_lt : resource < RLIM_NLIMITS
  cur_le : new.cur ≤ new.max
  nofile : resource = RLIMIT_NOFILE → new.max.toNat ≤ cfg.nrOpen
  hard : (s.rlim g resource).max < new.max → capable = true
  rlim : s'.rlim = (s.set g resource (stored resource new)).rlim
  cpuTimers : s'.cpuTimers = s.cpuTimers ∨ resource = RLIMIT_CPU ∧
    (stored resource new).cur ≠ infinity arch.bits ∧
      s'.cpuTimers = s.cpuTimers ++ [(g, (stored resource new).cur)]

/-- `do_prlimit` fails, or reads a limit, or stores one. -/
theorem doPrlimit_cases (cfg : LimitConfig) (k : LimitAnswers) (tsk : Thread γ) (resource : ℕ)
    (newRlim : Option (Rlimit arch.bits)) (s : Limits arch γ) :
    (∃ e, doPrlimit cfg k tsk resource newRlim s = (.error e, s)) ∨
      newRlim = none ∧
        doPrlimit cfg k tsk resource newRlim s = (.ok (s.rlim tsk.signal resource), s) ∨
      ∃ new s', newRlim = some new ∧ Stores cfg k.capable tsk.signal resource new s s' ∧
        doPrlimit cfg k tsk resource newRlim s = (.ok (s.rlim tsk.signal resource), s') := by
  unfold doPrlimit
  split
  · exact Or.inl ⟨_, rfl⟩
  next hres =>
  split
  · exact Or.inl ⟨_, rfl⟩
  next hle =>
  split
  · exact Or.inl ⟨_, rfl⟩
  next hnofile =>
  split
  · exact Or.inl ⟨_, rfl⟩
  cases newRlim with
  | none => exact Or.inr (Or.inl ⟨rfl, rfl⟩)
  | some new =>
    dsimp only
    split
    · exact Or.inl ⟨_, rfl⟩
    next hhard =>
    cases k.setrlimit with
    | some e => exact Or.inl ⟨_, rfl⟩
    | none =>
      refine Or.inr (Or.inr ⟨new, ?_⟩)
      have hcur : new.cur ≤ new.max := by simpa using hle
      have hopen : resource = RLIMIT_NOFILE → new.max.toNat ≤ cfg.nrOpen := by
        simpa using hnofile
      have hcap : (s.rlim tsk.signal resource).max < new.max → k.capable = true := by
        simpa using hhard
      dsimp only
      split
      · next htimer =>
        refine ⟨_, rfl, ⟨by omega, hcur, hopen, hcap, ?_, Or.inr ⟨htimer.1, htimer.2.1, ?_⟩⟩, rfl⟩
        · rfl
        · rfl
      · exact ⟨_, rfl, ⟨by omega, hcur, hopen, hcap, rfl, Or.inl rfl⟩, rfl⟩

theorem doPrlimit_stores (cfg : LimitConfig) (k : LimitAnswers) (tsk : Thread γ) (resource : ℕ)
    (newRlim : Option (Rlimit arch.bits)) (s : Limits arch γ) :
    (doPrlimit cfg k tsk resource newRlim s).2 = s ∨
      ∃ new, Stores cfg k.capable tsk.signal resource new s
        (doPrlimit cfg k tsk resource newRlim s).2 := by
  rcases doPrlimit_cases cfg k tsk resource newRlim s with ⟨e, h⟩ | ⟨-, h⟩ | ⟨new, s', -, hs, h⟩
  · exact Or.inl (congrArg Prod.snd h)
  · exact Or.inl (congrArg Prod.snd h)
  · exact Or.inr ⟨new, by rwa [h]⟩

namespace LimitCall

/-- The process whose limits a call is about. -/
def target : LimitCall arch γ → Option γ
  | .prlimit64 _ _ tsk _ _ _ => tsk.map Thread.signal
  | .setrlimit current _ _ | .compatSetrlimit current _ _ => some current.signal

/-- `check_prlimit_permission` lets the call through; the other calls are about the calling
    process. -/
def Permitted (k : LimitAnswers) : LimitCall arch γ → Prop
  | .prlimit64 uid gid (some tsk) _ _ _ => checkPrlimitPermission k uid gid tsk = none
  | .prlimit64 _ _ none _ _ _ => False
  | .setrlimit .. | .compatSetrlimit .. => True

theorem setrlimit_stores (cfg : LimitConfig) (k : LimitAnswers) (current : Thread γ)
    (resource : ℕ) (rlim : Rlimit arch.bits) (s : Limits arch γ) :
    (Kernel.setrlimit cfg k current resource rlim s).2 = s ∨
      ∃ new, Stores cfg k.capable current.signal resource new s
        (Kernel.setrlimit cfg k current resource rlim s).2 := by
  unfold Kernel.setrlimit
  split
  · exact doPrlimit_stores cfg k current resource (some rlim) s
  · exact Or.inl rfl

/-- A call leaves the limits as they are, or stores one for its target. -/
theorem run_stores (c : LimitCall arch γ) (cfg : LimitConfig) (k : LimitAnswers)
    (s : Limits arch γ) :
    c.run cfg k s = s ∨ ∃ g resource new, c.target = some g ∧ c.Permitted k ∧
      Stores cfg k.capable g resource new s (c.run cfg k s) := by
  cases c with
  | prlimit64 uid gid tsk resource newRlim oldRlim =>
    simp only [run, Kernel.prlimit64]
    split
    · exact Or.inl rfl
    cases tsk with
    | none => exact Or.inl rfl
    | some tsk =>
      dsimp only
      cases hperm : checkPrlimitPermission k uid gid tsk with
      | some e => exact Or.inl rfl
      | none =>
        dsimp only
        rw [copyOld_snd]
        exact (doPrlimit_stores cfg k tsk resource _ s).imp_right
          fun ⟨new, h⟩ => ⟨tsk.signal, resource, new, rfl, hperm, h⟩
  | setrlimit current resource rlim =>
    exact (setrlimit_stores cfg k current resource rlim s).imp_right
      fun ⟨new, h⟩ => ⟨current.signal, resource, new, rfl, trivial, h⟩
  | compatSetrlimit current resource rlim =>
    exact (setrlimit_stores cfg k current resource _ s).imp_right
      fun ⟨new, h⟩ => ⟨current.signal, resource, new, rfl, trivial, h⟩

end LimitCall

/-! ## The limits that are stored -/

/-- The soft limit is within the hard one, but for the CPU limit of one second that replaces
    zero; no CPU limit is zero; and there are no more open files than `sysctl_nr_open`. -/
structure Sound (cfg : LimitConfig) (resource : ℕ) (l : Rlimit arch.bits) : Prop where
  cur_le : l.cur ≤ l.max ∨ resource = RLIMIT_CPU ∧ l.cur = 1 ∧ l.max = 0
  cpu : resource = RLIMIT_CPU → l.cur ≠ 0
  nofile : resource = RLIMIT_NOFILE → l.max.toNat ≤ cfg.nrOpen

theorem one_ne_zero_long (arch : Arch) : (1 : BitVec arch.bits) ≠ 0 := by
  cases arch <;> decide

theorem one_le_or_eq_zero {w : ℕ} (x : BitVec w) : 1 ≤ x ∨ x = 0 := by
  by_cases hx : x = 0
  · exact Or.inr hx
  · have hone : (1 : BitVec w).toNat ≤ 1 := Nat.mod_le 1 (2 ^ w)
    have hpos : 0 < x.toNat := Nat.pos_of_ne_zero fun h => hx (BitVec.eq_of_toNat_eq h)
    exact Or.inl (BitVec.le_def.mpr (hone.trans hpos))

theorem Stores.sound (h : Stores cfg k.capable g resource new s s') :
    Sound cfg resource (stored resource new) := by
  unfold stored
  split
  · next hzero =>
    refine ⟨?_, fun _ => one_ne_zero_long arch, fun hres => h.nofile hres⟩
    exact (one_le_or_eq_zero new.max).imp_right fun hmax => ⟨hzero.1, rfl, hmax⟩
  · next hne => exact ⟨Or.inl h.cur_le, fun hres hcur => hne ⟨hres, hcur⟩, h.nofile⟩

theorem Stores.rlim_eq (h : Stores cfg k.capable g resource new s s') :
    s'.rlim g resource = stored resource new := by
  simp [h.rlim, Limits.set]

theorem Stores.rlim_of_ne (h : Stores cfg k.capable g resource new s s') {g' : γ} {r : ℕ}
    (hne : g' ≠ g ∨ r ≠ resource) : s'.rlim g' r = s.rlim g' r := by
  by_cases hg : g' = g
  · subst hg
    simp [h.rlim, Limits.set, hne.resolve_left (· rfl)]
  · simp [h.rlim, Limits.set, hg]

theorem Stores.max_eq (h : Stores cfg k.capable g resource new s s') :
    (s'.rlim g resource).max = new.max := by
  rw [h.rlim_eq, stored]
  split <;> rfl

/-- Without the capability a call raises no hard limit. -/
theorem Stores.max_le (h : Stores cfg k.capable g resource new s s') (hcap : k.capable = false)
    (g' : γ) (r : ℕ) : (s'.rlim g' r).max ≤ (s.rlim g' r).max := by
  by_cases heq : g' = g ∧ r = resource
  · obtain ⟨rfl, rfl⟩ := heq
    rw [h.max_eq, ← BitVec.not_lt]
    intro hlt
    rw [h.hard hlt] at hcap
    cases hcap
  · rw [h.rlim_of_ne (not_and_or.mp heq)]
    exact BitVec.le_refl _

theorem Stores.sound_all (h : Stores cfg k.capable g resource new s s')
    (hs : ∀ g r, Sound cfg r (s.rlim g r)) (g' : γ) (r : ℕ) : Sound cfg r (s'.rlim g' r) := by
  by_cases heq : g' = g ∧ r = resource
  · obtain ⟨rfl, rfl⟩ := heq
    rw [h.rlim_eq]
    exact h.sound
  · rw [h.rlim_of_ne (not_and_or.mp heq)]
    exact hs g' r

theorem Stores.mem_cpuTimers (h : Stores cfg k.capable g resource new s s')
    {p : γ × BitVec arch.bits} (hp : p ∈ s'.cpuTimers) :
    p ∈ s.cpuTimers ∨ p.2 ≠ 0 ∧ p.2 ≠ infinity arch.bits := by
  rcases h.cpuTimers with heq | ⟨hres, hinf, heq⟩
  · exact Or.inl (heq ▸ hp)
  · rw [heq] at hp
    rcases List.mem_append.mp hp with hold | hnew
    · exact Or.inl hold
    · obtain rfl := List.mem_singleton.mp hnew
      exact Or.inr ⟨h.sound.cpu hres, hinf⟩

/-- Whatever limits are set, by whatever calls and in whatever order, all limits stay sound,
    and no CPU timer is set to zero or to infinity. -/
theorem limits_sound (arch : Arch) (cfg : LimitConfig) {s s' : Limits arch γ}
    {as : List (LimitCall arch γ × LimitAnswers)} (hs : ∀ g r, Sound cfg r (s.rlim g r))
    (h0 : (limitsProgram arch cfg).init s) (hrun : (limitsProgram arch cfg).Run s as s') :
    (∀ g r, Sound cfg r (s'.rlim g r)) ∧
      ∀ p ∈ s'.cpuTimers, p.2 ≠ 0 ∧ p.2 ≠ infinity arch.bits := by
  have htimers : ∀ p ∈ s.cpuTimers, p.2 ≠ 0 ∧ p.2 ≠ infinity arch.bits := by
    rw [show s.cpuTimers = [] from h0]
    simp
  clear h0
  induction hrun with
  | nil => exact ⟨hs, htimers⟩
  | @cons s s' a as _ _ ih =>
    rcases a.1.run_stores cfg a.2 s with heq | ⟨g, resource, new, -, -, hstores⟩
    · have hact : (limitsProgram arch cfg).act a s = s := heq
      rw [hact] at ih
      exact ih hs htimers
    · exact ih (hstores.sound_all hs) fun p hp => (hstores.mem_cpuTimers hp).elim (htimers p) id

/-- The limits of one process: all but the number of open files are infinite. -/
def bootLimits : Limits .bits64 Unit where
  rlim _ r := if r = RLIMIT_NOFILE then ⟨1024, 4096⟩ else ⟨infinity 64, infinity 64⟩
  cpuTimers := []

def bootConfig : LimitConfig := ⟨1048576, true⟩

/-- Nothing fails, and nothing needs a capability. -/
def limitGranted : LimitAnswers := ⟨true, true, false, false, none, none⟩

def oneThread : Thread Unit := ⟨(), true, true, ⟨0, 0, 0, 0⟩, ⟨0, 0, 0, 0⟩⟩

/-- A CPU limit of zero is asked for, and one second is stored, over the hard limit. -/
theorem limits_sound_zero_cpu :
    let s' := (limitsProgram .bits64 bootConfig).act
      (.setrlimit oneThread RLIMIT_CPU ⟨0, 0⟩, limitGranted) bootLimits
    s'.rlim () RLIMIT_CPU = ⟨1, 0⟩ ∧ Sound bootConfig RLIMIT_CPU (s'.rlim () RLIMIT_CPU) := by
  refine ⟨by decide, ?_⟩
  have hboot : ∀ (g : Unit) (r : ℕ), Sound bootConfig r (bootLimits.rlim g r) := by
    rintro ⟨⟩ r
    by_cases hr : r = RLIMIT_NOFILE
    · subst hr
      exact ⟨Or.inl (by decide), by decide, fun _ => by decide⟩
    · simp only [bootLimits, if_neg hr]
      exact ⟨Or.inl (BitVec.le_refl _), fun _ => by decide, fun h => absurd h hr⟩
  have hrun : (limitsProgram .bits64 bootConfig).Run bootLimits
      [(.setrlimit oneThread RLIMIT_CPU ⟨0, 0⟩, limitGranted)] _ := .cons trivial (.nil _)
  exact (limits_sound .bits64 bootConfig hboot rfl hrun).1 () RLIMIT_CPU

/-! ## Who may change what -/

/-- A call by one of the processes `mine`: another process can be reached only where its
    numbers do not match, and without the capability. -/
def From (mine : γ → Prop) (a : LimitCall arch γ × LimitAnswers) : Prop :=
  match a.1 with
  | .prlimit64 uid gid (some tsk) _ _ _ =>
    mine tsk.signal ∨ tsk.isCurrent = false ∧ a.2.nsCapable = false ∧
      ¬ (uid = tsk.uid.eff ∧ uid = tsk.uid.saved ∧ uid = tsk.uid.real ∧
        gid = tsk.gid.eff ∧ gid = tsk.gid.saved ∧ gid = tsk.gid.real)
  | .prlimit64 _ _ none _ _ _ => True
  | .setrlimit current _ _ | .compatSetrlimit current _ _ => mine current.signal

omit [DecidableEq γ] in
theorem mine_of_from {mine : γ → Prop} {a : LimitCall arch γ × LimitAnswers}
    (hfrom : From mine a) (htarget : a.1.target = some g) (hperm : a.1.Permitted a.2) :
    mine g := by
  obtain ⟨c, k⟩ := a
  cases c with
  | prlimit64 uid gid tsk resource newRlim oldRlim =>
    cases tsk with
    | none => cases htarget
    | some tsk =>
      obtain rfl : tsk.signal = g := Option.some.inj htarget
      rcases hfrom with hmine | ⟨hcurrent, hcap, hids⟩
      · exact hmine
      · simp only [LimitCall.Permitted, checkPrlimitPermission, hcurrent, Bool.false_eq_true,
          if_false] at hperm
        rw [if_pos ⟨hids, hcap⟩] at hperm
        cases hperm
  | setrlimit current | compatSetrlimit current =>
    obtain rfl : current.signal = g := Option.some.inj htarget
    exact hfrom

/-- Where no call has `CAP_SYS_RESOURCE`, no hard limit rises; and where processes of other
    users are reached by `prlimit64` only, their limits stay as they are. -/
theorem limits_confined (arch : Arch) (cfg : LimitConfig) {s s' : Limits arch γ}
    {as : List (LimitCall arch γ × LimitAnswers)} (hrun : (limitsProgram arch cfg).Run s as s') :
    ((∀ a ∈ as, a.2.capable = false) →
      ∀ g r, (s'.rlim g r).max ≤ (s.rlim g r).max) ∧
    ∀ mine : γ → Prop, (∀ a ∈ as, From mine a) → ∀ g, ¬ mine g → s'.rlim g = s.rlim g := by
  induction hrun with
  | nil => exact ⟨fun _ _ _ => BitVec.le_refl _, fun _ _ _ _ => rfl⟩
  | @cons s s' a as _ _ ih =>
    have hstep := a.1.run_stores cfg a.2 s
    constructor
    · intro hcap g r
      refine BitVec.le_trans (ih.1 (fun b hb => hcap b (List.mem_cons_of_mem a hb)) g r) ?_
      rcases hstep with heq | ⟨g', resource, new, -, -, hstores⟩
      · have hact : (limitsProgram arch cfg).act a s = s := heq
        rw [hact]
        exact BitVec.le_refl _
      · exact hstores.max_le (hcap a List.mem_cons_self) g r
    · intro mine hmine g hg
      refine (ih.2 mine (fun b hb => hmine b (List.mem_cons_of_mem a hb)) g hg).trans ?_
      rcases hstep with heq | ⟨g', resource, new, htarget, hperm, hstores⟩
      · exact congrArg (fun s => s.rlim g) heq
      · have hne : g ≠ g' := by
          rintro rfl
          exact hg (mine_of_from (hmine a List.mem_cons_self) htarget hperm)
        exact funext fun r => hstores.rlim_of_ne (Or.inl hne)

/-- Two processes, of the users 1000 (`false`) and 0 (`true`). -/
def twoUsers : Limits .bits64 Bool where
  rlim _ := bootLimits.rlim ()
  cpuTimers := []

/-- User 1000 tries to raise the hard limit of its open files, lowers it, and tries to lower
    that of the other process. -/
def confinedCalls : List (LimitCall .bits64 Bool × LimitAnswers) :=
  let ours : Thread Bool := ⟨false, true, true, ⟨1000, 1000, 1000, 1000⟩, ⟨100, 100, 100, 100⟩⟩
  let theirs : Thread Bool := ⟨true, true, false, ⟨0, 0, 0, 0⟩, ⟨0, 0, 0, 0⟩⟩
  [(.setrlimit ours RLIMIT_NOFILE ⟨8192, 8192⟩, limitGranted),
    (.setrlimit ours RLIMIT_NOFILE ⟨512, 2048⟩, limitGranted),
    (.prlimit64 1000 100 (some theirs) RLIMIT_NOFILE (some ⟨1, 1⟩) false, limitGranted)]

theorem limits_confined_two_users :
    ∃ s', (limitsProgram .bits64 bootConfig).Run twoUsers confinedCalls s' ∧
      s'.rlim false RLIMIT_NOFILE = ⟨512, 2048⟩ ∧
      (∀ g r, (s'.rlim g r).max ≤ (twoUsers.rlim g r).max) ∧ s'.rlim true = twoUsers.rlim true := by
  have hrun : (limitsProgram .bits64 bootConfig).Run twoUsers confinedCalls _ :=
    .cons trivial (.cons trivial (.cons trivial (.nil _)))
  obtain ⟨hhard, hothers⟩ := limits_confined .bits64 bootConfig hrun
  refine ⟨_, hrun, by decide, hhard (by simp [confinedCalls, limitGranted]), ?_⟩
  exact hothers (· = false) (by simp [confinedCalls, limitGranted, From]) true (by decide)

end Apes.Kernel
