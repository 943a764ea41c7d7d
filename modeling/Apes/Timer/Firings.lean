import Apes.Timer.Rearm

/-!
# How often the timer fires

Every firing of the timer uses up the ticks since it was last set. So the timer fires no more
often than once in `HZ*time_period` ticks, if that is what it is set to. The log numbers the
firings.
-/

namespace Apes.Timer

open Apes

variable {p : Params} {s : State p.w} {a : Action} {ticks fires since : ℕ}

/-- `timer_start` has not returned. -/
def Starting : Stage → Prop
  | .entry | .initTimer | .customInit | .printInitialised | .addTimer => True
  | _ => False

/-- `custom_timer_init` has not set the expiry. -/
def Unset : Stage → Prop
  | .entry | .initTimer | .customInit => True
  | _ => False

/-- The ticks and the firings so far, and the ticks since the expiry was last set. -/
structure Paced (p : Params) (s : State p.w) (ticks fires since : ℕ) : Prop where
  starting : Starting s.stage → fires = 0 ∧ s.pending = false ∧ s.callback = .idle
  distance : ¬ Unset s.stage → s.jiffies = s.expires - p.period + BitVec.ofNat p.w since
  spent : p.period.toNat * fires ≤ ticks
  saved : s.pending = true ∨ Starting s.stage ∧ ¬ Unset s.stage →
    p.period.toNat * fires + since ≤ ticks

/-- While fewer ticks have passed than the expiry was set ahead, it is not due. -/
theorem not_due_of_lt {w : ℕ} {jiffies expires period : BitVec w} {d : ℕ}
    (hdist : jiffies = expires - period + BitVec.ofNat w d) (hhalf : 2 * period.toNat ≤ 2 ^ w)
    (hlt : d < period.toNat) : (jiffies - expires).toInt < 0 := by
  have hperiod := period.isLt
  have hsub : jiffies - expires = BitVec.ofNat w d - period := by
    rw [hdist]
    grind
  have hd : (BitVec.ofNat w d).toNat = d := by
    rw [BitVec.toNat_ofNat]
    exact Nat.mod_eq_of_lt (by omega)
  have hnat : (BitVec.ofNat w d - period).toNat = 2 ^ w - period.toNat + d := by
    rw [BitVec.toNat_sub, hd]
    exact Nat.mod_eq_of_lt (by omega)
  rw [hsub, BitVec.toInt_eq_toNat_cond, hnat, if_neg (by omega)]
  omega

namespace Paced

theorem start (jiffies : BitVec p.w) : Paced p (start jiffies) 0 0 0 where
  starting _ := ⟨rfl, rfl, rfl⟩
  distance h := absurd trivial h
  spent := Nat.le_refl _
  saved := by
    rintro (h | h)
    · cases h
    · exact absurd trivial h.2

/-- A callback runs only after `timer_start` has returned. -/
theorem not_starting (hp : Paced p s ticks fires since) (hc : s.callback ≠ .idle) :
    ¬ Starting s.stage := fun h => hc (hp.starting h).2.2

/-- A step of the callback that does not set the timer. -/
theorem callback (hp : Paced p s ticks fires since) (hc : s.callback ≠ .idle)
    {s' : State p.w} (hstage : s'.stage = s.stage) (hjiffies : s'.jiffies = s.jiffies)
    (hexpires : s'.expires = s.expires) (hpending : s'.pending = s.pending) :
    Paced p s' ticks fires since where
  starting h := absurd (hstage ▸ h) (hp.not_starting hc)
  distance h := by
    rw [hjiffies, hexpires]
    exact hp.distance (hstage ▸ h)
  spent := hp.spent
  saved h := by
    rw [hpending, hstage] at h
    exact hp.saved h

/-- The ticks that are counted while the timer is pending. -/
theorem due (hp : Paced p s ticks fires since) (hhalf : 2 * p.period.toNat ≤ 2 ^ p.w)
    (hstage : ¬ Starting s.stage) (hdue : s.Due) : p.period.toNat ≤ since := by
  by_contra hlt
  have hunset : ¬ Unset s.stage := fun h => hstage (by
    cases hs : s.stage <;> simp_all [Unset, Starting])
  exact not_le_of_gt (not_due_of_lt (hp.distance hunset) hhalf (by omega)) hdue

theorem step (hp : Paced p s ticks fires since) (hhalf : 2 * p.period.toNat ≤ 2 ^ p.w)
    (hg : guard s a) :
    ∃ since', Paced p (act p a s) (ticks + if a = .tick then 1 else 0)
      (fires + if a = .expire then 1 else 0) since' := by
  cases a with
  | tick =>
    refine ⟨since + 1, hp.starting, fun h => ?_, ?_, fun h => ?_⟩
    · have hdist := hp.distance h
      simp only [act, hdist, BitVec.ofNat_add]
      grind
    · exact hp.spent.trans (Nat.le_add_right _ _)
    · exact Nat.add_le_add_right (hp.saved h) 1
  | expire =>
    obtain ⟨hpending, hdue, hidle⟩ := hg
    have hstage : ¬ Starting s.stage := fun h => by simp [(hp.starting h).2.1] at hpending
    refine ⟨since, fun h => absurd h hstage, hp.distance, ?_, ?_⟩
    · have hsince := hp.due hhalf hstage hdue
      have hsaved := hp.saved (Or.inl hpending)
      simp only [if_true, Nat.mul_succ, reduceCtorEq, if_false]
      omega
    · rintro (h | h)
      · cases h
      · exact absurd h.1 hstage
  | modTimer =>
    have hc : s.callback ≠ .idle := by
      rw [show s.callback = .modTimer from hg]
      decide
    refine ⟨0, fun h => absurd h (hp.not_starting hc), fun _ => ?_, hp.spent, fun _ => hp.spent⟩
    simp only [act, timerCallback]
    grind
  | customTimerInit =>
    have hstage : s.stage = .customInit := hg
    obtain ⟨hfires, hpending, hidle⟩ := hp.starting (by simp [hstage, Starting])
    refine ⟨0, fun _ => ⟨by simpa using hfires, hpending, hidle⟩, fun _ => ?_, hp.spent,
      fun _ => hp.spent⟩
    simp only [act, timerStart]
    grind
  | count | printName | printCount | callbackReturns =>
    have hc : s.callback ≠ .idle := by
      simp only [guard] at hg
      rw [hg]
      decide
    exact ⟨since, hp.callback hc rfl rfl rfl rfl⟩
  | printEntered | initTimer | printInitialised | addTimer =>
    simp only [guard] at hg
    obtain ⟨hfires, hpending, hidle⟩ := hp.starting (by simp [hg, Starting])
    have hdist := hp.distance
    have hsaved := hp.saved
    simp only [hg, Unset, Starting] at hdist hsaved
    refine ⟨since, ?_, ?_, hp.spent, ?_⟩ <;>
      simp_all [act, timerStart, Starting, Unset]
  | rmmod | printExited | delTimer | timerEndReturns =>
    simp only [guard] at hg
    have hdist := hp.distance
    have hsaved := hp.saved
    simp only [hg, Unset, Starting] at hdist hsaved
    refine ⟨since, ?_, ?_, hp.spent, ?_⟩ <;>
      simp_all [act, timerEnd, Starting, Unset]

theorem run {s s' : State p.w} {as : List Action} (hrun : (program p).Run s as s')
    (hp : Paced p s ticks fires since) (hhalf : 2 * p.period.toNat ≤ 2 ^ p.w) :
    ∃ since', Paced p s' (ticks + as.count .tick) (fires + as.count .expire) since' := by
  induction hrun generalizing ticks fires since with
  | nil => exact ⟨since, hp⟩
  | @cons s s' a as hg _ ih =>
    obtain ⟨since', hstep⟩ := hp.step hhalf hg
    have hcount (b : Action) :
        (a :: as).count b = (if a = b then 1 else 0) + as.count b := by
      rw [List.count_cons, Nat.add_comm]
      simp
    rw [hcount, hcount, ← Nat.add_assoc, ← Nat.add_assoc]
    exact ih hstep

end Paced

/-! ## A timer that fires too often -/

/-- `timer_start` -/
def starting : List Action :=
  [.printEntered, .initTimer, .customTimerInit, .printInitialised, .addTimer]

/-- The module is loaded, and `d` ticks have passed. -/
def loaded (p : Params) (d : ℕ) : State p.w where
  jiffies := BitVec.ofNat p.w d
  expires := p.period
  pending := true
  timerCount := 0
  log := [.entered, .initialised]
  stage := .loaded
  callback := .idle

theorem run_ticks (p : Params) (d : ℕ) :
    (program p).Run (loaded p 0) (List.replicate d .tick) (loaded p d) := by
  induction d with
  | zero => exact .nil _
  | succ d ih =>
    rw [List.replicate_succ']
    refine ih.append (.cons trivial ?_)
    have hact : (program p).act .tick (loaded p d) = loaded p (d + 1) := by
      simp only [program, act, loaded, BitVec.ofNat_add]
      rfl
    rw [hact]
    exact .nil _

theorem run_starting (p : Params) : (program p).Run (start 0) starting (loaded p 0) := by
  have hrun := Program.run_of_exec (program p) starting (start 0) rfl
  have hlast : (program p).act .addTimer ((program p).act .printInitialised
      ((program p).act .customTimerInit ((program p).act .initTimer
        ((program p).act .printEntered (start 0))))) = loaded p 0 := by
    simp [program, act, timerStart, start, loaded]
  rwa [hlast] at hrun

/-- After how many ticks the timer is due. -/
def Params.delay (p : Params) : ℕ := if 2 * p.period.toNat ≤ 2 ^ p.w then p.period.toNat else 0

theorem due_loaded (p : Params) : (loaded p p.delay).Due := by
  have hperiod := p.period.isLt
  unfold State.Due Params.delay loaded
  by_cases hhalf : 2 * p.period.toNat ≤ 2 ^ p.w
  · simp [if_pos hhalf]
  · rw [if_neg hhalf, show BitVec.ofNat p.w 0 - p.period = -p.period by simp,
      BitVec.toInt_eq_toNat_cond, BitVec.toNat_neg, Nat.mod_eq_of_lt (by omega), if_pos (by omega)]
    omega

/-- Where the product does not fit, the timer is due too early. -/
theorem delay_lt (hpos : 0 < p.ticks) (hfits : ¬ p.PeriodFits) : (p.delay : ℤ) < p.ticks := by
  have hpow : ((2 ^ p.w : ℕ) : ℤ) = 2 ^ p.w := Int.natCast_pow 2 p.w
  have hperiod := period_toNat p
  have hbmod : p.ticks.bmod (2 ^ 32) =
      if p.ticks % 2 ^ 32 < 2 ^ 31 then p.ticks % 2 ^ 32 else p.ticks % 2 ^ 32 - 2 ^ 32 := rfl
  unfold Params.delay
  by_cases hhalf : 2 * p.period.toNat ≤ 2 ^ p.w
  · rw [if_pos hhalf]
    by_contra hle
    have hint : ¬ (p.w ≤ 32 ∨ p.ticks < 2 ^ 31) := fun h => hfits ⟨hpos, by omega, h⟩
    obtain ⟨hw, hbig⟩ := not_or.mp hint
    have hwide : (2 : ℤ) ^ 33 ≤ 2 ^ p.w := pow_le_pow_right₀ (by decide) (by omega)
    by_cases hneg : p.ticks % 2 ^ 32 < 2 ^ 31
    · rw [hbmod, if_pos hneg, Int.emod_eq_of_lt (by omega) (by omega)] at hperiod
      omega
    · -- the wrapped product is negative, and more than half the range as an `unsigned long`
      rw [hbmod, if_neg hneg, ← Int.add_emod_right, Int.emod_eq_of_lt (by omega) (by omega)]
        at hperiod
      omega
  · rw [if_neg hhalf]
    exact hpos

/-- The module is loaded, and its timer fires as soon as it is due. -/
def firstFiring (p : Params) : List Action :=
  starting ++ List.replicate p.delay .tick ++ [.expire]

theorem run_firstFiring (p : Params) :
    ∃ s, (program p).Run (start 0) (firstFiring p) s := by
  have hfire : (program p).Run (loaded p p.delay) [.expire] _ :=
    .cons ⟨rfl, due_loaded p, rfl⟩ (.nil _)
  exact ⟨_, ((run_starting p).append (run_ticks p p.delay)).append hfire⟩

/-- In every run the timer fires at most once in `HZ*time_period` ticks, where this is the
    product of two integers, if and only if the product is not positive, so that this says
    nothing, or it fits. -/
theorem firings_iff (p : Params) :
    (∀ s s' as, (program p).init s → (program p).Run s as s' →
      p.ticks * as.count .expire ≤ as.count .tick) ↔ p.ticks ≤ 0 ∨ p.PeriodFits := by
  constructor
  · intro hall
    by_contra hno
    obtain ⟨hpos, hfits⟩ := not_or.mp hno
    obtain ⟨s, hrun⟩ := run_firstFiring p
    have hle := hall _ _ _ ⟨0, rfl⟩ hrun
    have hexpire : (firstFiring p).count .expire = 1 := by
      simp [firstFiring, starting, List.count_replicate]
    have htick : (firstFiring p).count .tick = p.delay := by
      simp [firstFiring, starting]
    rw [hexpire, htick] at hle
    have hlt := delay_lt (not_le.mp hpos) hfits
    omega
  · rintro (hneg | hfits) s s' as h0 hrun
    · have hle : p.ticks * (as.count .expire : ℤ) ≤ 0 :=
        Int.mul_nonpos_of_nonpos_of_nonneg hneg (Int.natCast_nonneg _)
      omega
    · obtain ⟨jiffies, rfl⟩ := h0
      have hexact : (p.period.toNat : ℤ) = p.ticks :=
        (period_toNat p).trans ((wrapped_eq_iff hfits.pos hfits.half).mpr hfits.int)
      have hpow : ((2 ^ p.w : ℕ) : ℤ) = 2 ^ p.w := Int.natCast_pow 2 p.w
      have hhalf := hfits.half
      obtain ⟨since, hp⟩ := (Paced.start jiffies).run hrun (by omega)
      have hspent := hp.spent
      rw [Nat.zero_add, Nat.zero_add] at hspent
      rw [← hexact]
      exact_mod_cast hspent

/-! ## The numbers in the log -/

/-- The number in a message of `timer_callback`. -/
def Message.number : Message → Option (BitVec 32)
  | .called timerCount => some timerCount
  | _ => none

/-- The numbers that have been logged. -/
def State.numbers {w : ℕ} (s : State w) : List (BitVec 32) := s.log.filterMap Message.number

/-- The callback has counted and not logged the number yet. -/
def CallbackPc.Counted (pc : CallbackPc) : Prop := pc = .printName ∨ pc = .printCount

instance : DecidablePred CallbackPc.Counted := fun _ => inferInstanceAs (Decidable (_ ∨ _))

/-- The numbers in the log, the counter and the callback after `fires` firings. -/
structure Numbered (numbers : List (BitVec 32)) (timerCount : BitVec 32) (callback : CallbackPc)
    (fires : ℕ) : Prop where
  inOrder : numbers = (List.range numbers.length).map fun k => BitVec.ofNat 32 (k + 1)
  counted : timerCount = BitVec.ofNat 32 (numbers.length + if callback.Counted then 1 else 0)
  fired : fires = numbers.length + if callback = .count ∨ callback.Counted then 1 else 0

namespace Numbered

variable {numbers : List (BitVec 32)} {timerCount : BitVec 32}

theorem expire (h : Numbered numbers timerCount .idle fires) :
    Numbered numbers timerCount .count (fires + 1) :=
  ⟨h.inOrder, h.counted, congrArg (· + 1) h.fired⟩

theorem count_step (h : Numbered numbers timerCount .count fires) :
    Numbered numbers (timerCount + 1) .printName fires where
  inOrder := h.inOrder
  counted := by
    rw [h.counted, if_neg (by decide), if_pos (by decide), Nat.add_zero, BitVec.ofNat_add]
    rfl
  fired := h.fired

theorem printName (h : Numbered numbers timerCount .printName fires) :
    Numbered numbers timerCount .printCount fires := ⟨h.inOrder, h.counted, h.fired⟩

theorem printCount (h : Numbered numbers timerCount .printCount fires) :
    Numbered (numbers ++ [timerCount]) timerCount .modTimer fires := by
  have hlen : (numbers ++ [timerCount]).length = numbers.length + 1 := by simp
  refine ⟨?_, ?_, ?_⟩
  · rw [hlen, List.range_succ, List.map_append, ← h.inOrder, List.map_singleton]
    exact congrArg (fun x => numbers ++ [x]) h.counted
  · rw [hlen]
    exact h.counted
  · rw [hlen]
    exact h.fired

theorem modTimer (h : Numbered numbers timerCount .modTimer fires) :
    Numbered numbers timerCount .leaving fires := ⟨h.inOrder, h.counted, h.fired⟩

theorem callbackReturns (h : Numbered numbers timerCount .leaving fires) :
    Numbered numbers timerCount .idle fires := ⟨h.inOrder, h.counted, h.fired⟩

end Numbered

/-- The log of the state after `fires` firings. -/
def State.Numbered {w : ℕ} (s : State w) (fires : ℕ) : Prop :=
  Timer.Numbered s.numbers s.timerCount s.callback fires

theorem numbers_concat {log : List Message} {m : Message} :
    (log ++ [m]).filterMap Message.number = log.filterMap Message.number ++ m.number.toList := by
  rw [List.filterMap_append, List.filterMap_cons, List.filterMap_nil]
  cases m.number <;> rfl

namespace State.Numbered

theorem step (hn : s.Numbered fires) (hg : guard s a) :
    (act p a s).Numbered (fires + if a = .expire then 1 else 0) := by
  cases a with
  | expire =>
    have hidle : s.callback = .idle := hg.2.2
    rw [State.Numbered, hidle] at hn
    exact hn.expire
  | count =>
    have hpc : s.callback = .count := hg
    rw [State.Numbered, hpc] at hn
    exact hn.count_step
  | printName =>
    have hpc : s.callback = .printName := hg
    rw [State.Numbered, hpc] at hn
    have hlog : (act p .printName s).numbers = s.numbers :=
      numbers_concat.trans (List.append_nil _)
    rw [State.Numbered, hlog]
    exact hn.printName
  | printCount =>
    have hpc : s.callback = .printCount := hg
    rw [State.Numbered, hpc] at hn
    have hlog : (act p .printCount s).numbers = s.numbers ++ [s.timerCount] := numbers_concat
    rw [State.Numbered, hlog]
    exact hn.printCount
  | modTimer =>
    have hpc : s.callback = .modTimer := hg
    rw [State.Numbered, hpc] at hn
    exact hn.modTimer
  | callbackReturns =>
    have hpc : s.callback = .leaving := hg
    rw [State.Numbered, hpc] at hn
    exact hn.callbackReturns
  | printEntered =>
    have hlog : (act p .printEntered s).numbers = s.numbers :=
      numbers_concat.trans (List.append_nil _)
    rw [State.Numbered, hlog]
    exact hn
  | printInitialised =>
    have hlog : (act p .printInitialised s).numbers = s.numbers :=
      numbers_concat.trans (List.append_nil _)
    rw [State.Numbered, hlog]
    exact hn
  | printExited =>
    have hlog : (act p .printExited s).numbers = s.numbers :=
      numbers_concat.trans (List.append_nil _)
    rw [State.Numbered, hlog]
    exact hn
  | _ => exact hn

theorem run {s s' : State p.w} {as : List Action} (hrun : (program p).Run s as s')
    (hn : s.Numbered fires) : s'.Numbered (fires + as.count .expire) := by
  induction hrun generalizing fires with
  | nil => exact hn
  | @cons s s' a as hg _ ih =>
    have hcount : (a :: as).count .expire =
        (if a = .expire then 1 else 0) + as.count .expire := by
      rw [List.count_cons, Nat.add_comm]
      simp
    rw [hcount, ← Nat.add_assoc]
    exact ih (hn.step hg)

end State.Numbered

/-- The messages of `timer_callback` number the firings from one on, each firing once, and only
    the number of the callback that is running may be missing. -/
theorem firings_numbered (p : Params) {s s' : State p.w} {as : List Action}
    (h0 : (program p).init s) (hrun : (program p).Run s as s') :
    s'.numbers = (List.range s'.numbers.length).map (fun k => BitVec.ofNat 32 (k + 1)) ∧
      as.count .expire = s'.numbers.length +
        if s'.callback = .count ∨ s'.callback.Counted then 1 else 0 := by
  obtain ⟨jiffies, rfl⟩ := h0
  have hstart : (start jiffies).Numbered 0 := ⟨rfl, rfl, rfl⟩
  have hn := State.Numbered.run hrun hstart
  rw [Nat.zero_add] at hn
  exact ⟨hn.inOrder, hn.fired⟩

/-- The timer fires twice. -/
def twoFirings : List Action :=
  starting ++ [.expire, .count, .printName, .printCount, .modTimer, .callbackReturns, .expire]

theorem firings_numbered_twice :
    ∃ s, (program ⟨32, 250, 0, "Vikrant"⟩).exec twoFirings (start 0) = some s ∧
      s.numbers = [1] ∧ twoFirings.count .expire = s.numbers.length + 1 := by
  refine ⟨_, rfl, rfl, ?_⟩
  exact (firings_numbered ⟨32, 250, 0, "Vikrant"⟩ ⟨0, rfl⟩
    (Program.run_of_exec _ twoFirings (start 0) rfl)).2

end Apes.Timer
