import Apes.Timer.Timer
import Mathlib.Algebra.Order.Ring.Int

/-!
# The expiry of the timer

`custom_timer_init` and `timer_callback` set the timer to `jiffies + HZ*time_period`. The
product is one of two `int`s, and the parameter is not checked: only a positive product that
does not overflow, and is at most half the range of `jiffies`, sets the timer where it is
meant to be set.
-/

namespace Apes.Timer

open Apes

/-- `static int time_period = 0.5` -/
def defaultTimePeriod : BitVec 32 := 0

/-- `HZ*time_period` in integers. -/
def Params.ticks (p : Params) : ℤ := p.hz.toInt * p.timePeriod.toInt

/-- `time_after(a, b)` -/
def TimeAfter {w : ℕ} (a b : BitVec w) : Prop := (b - a).toInt < 0

instance {w : ℕ} (a b : BitVec w) : Decidable (TimeAfter a b) := inferInstanceAs (Decidable (_ < _))

/-- The timer is set to expire after `jiffies`, by as many ticks as it is meant to. -/
structure RightExpiry (p : Params) (jiffies expires : BitVec p.w) : Prop where
  after : TimeAfter expires jiffies
  exact : ((expires - jiffies).toNat : ℤ) = p.ticks

/-- The actions that set the expiry of the timer. -/
def Action.Arms : Action → Prop
  | .customTimerInit | .modTimer => True
  | _ => False

/-- Where the step sets the expiry it sets it right. -/
def ArmsRight (p : Params) (s : State p.w) (a : Action) : Prop :=
  a.Arms → RightExpiry p s.jiffies (act p a s).expires

/-- The product is positive and at most half the range of `jiffies`, and it does not overflow
    where `jiffies` is wider than an `int`. -/
structure Params.PeriodFits (p : Params) : Prop where
  pos : 0 < p.ticks
  half : 2 * p.ticks ≤ 2 ^ p.w
  int : p.w ≤ 32 ∨ p.ticks < 2 ^ 31

variable {p : Params}

theorem period_toNat (p : Params) : (p.period.toNat : ℤ) = p.ticks.bmod (2 ^ 32) % 2 ^ p.w := by
  have hcast : ((2 ^ p.w : ℕ) : ℤ) = 2 ^ p.w := Int.natCast_pow 2 p.w
  have hne : (2 : ℤ) ^ p.w ≠ 0 := pow_ne_zero _ (by decide)
  have hint : (p.hz * p.timePeriod).toInt = p.ticks.bmod (2 ^ 32) :=
    BitVec.toInt_mul _ _
  rw [Params.period, BitVec.signExtend, BitVec.toNat_ofInt, hcast,
    Int.toNat_of_nonneg (Int.emod_nonneg _ hne), hint]

/-- Both arming sites set the timer `p.period` ticks ahead. -/
theorem expires_of_arms (s : State p.w) {a : Action} (ha : a.Arms) :
    (act p a s).expires = s.jiffies + p.period := by
  cases a with
  | customTimerInit | modTimer => rfl
  | _ => exact ha.elim

/-- An `unsigned long` is after zero if it is positive and at most half the range. -/
theorem timeAfter_add_iff {w : ℕ} (x d : BitVec w) :
    TimeAfter (x + d) x ↔ 0 < d.toNat ∧ 2 * d.toNat ≤ 2 ^ w := by
  have hsub : x - (x + d) = -d := by grind
  have hd := d.isLt
  rw [TimeAfter, hsub, BitVec.toInt_eq_toNat_cond, BitVec.toNat_neg]
  by_cases h0 : d.toNat = 0
  · have hpow : 0 < 2 ^ w := Nat.pow_pos (by decide)
    simp [h0, hpow]
  · rw [Nat.mod_eq_of_lt (by omega)]
    split <;> omega

/-- The wrapped product is the right number of ticks if the product is small enough for an
    `int`, or if `jiffies` is no wider than one. -/
theorem wrapped_eq_iff {w : ℕ} {z : ℤ} (h0 : 0 < z) (h : 2 * z ≤ 2 ^ w) :
    z.bmod (2 ^ 32) % 2 ^ w = z ↔ w ≤ 32 ∨ z < 2 ^ 31 := by
  by_cases hw : w ≤ 32
  · obtain ⟨c, hc⟩ : (2 : ℤ) ^ w ∣ 2 ^ 32 := pow_dvd_pow 2 hw
    have hbmod : z.bmod (2 ^ 32) = z - 2 ^ w * (c * z.bdiv (2 ^ 32)) := by
      rw [← mul_assoc, ← hc]
      exact Int.bmod_eq_self_sub_mul_bdiv z (2 ^ 32)
    rw [hbmod, Int.sub_mul_emod_self_left, Int.emod_eq_of_lt h0.le (by omega)]
    exact iff_of_true rfl (Or.inl hw)
  · have hpow : (2 : ℤ) ^ 33 ≤ 2 ^ w := pow_le_pow_right₀ (by decide) (by omega)
    have hbmod : z.bmod (2 ^ 32) =
        if z % 2 ^ 32 < 2 ^ 31 then z % 2 ^ 32 else z % 2 ^ 32 - 2 ^ 32 := rfl
    by_cases hz : z < 2 ^ 31
    · have hself : z.bmod (2 ^ 32) = z := by
        rw [hbmod]
        split <;> omega
      rw [hself, Int.emod_eq_of_lt h0.le (by omega)]
      exact iff_of_true rfl (Or.inr hz)
    · refine iff_of_false ?_ (by omega)
      rw [hbmod]
      split
      · rw [Int.emod_eq_of_lt (by omega) (by omega)]
        omega
      · -- a negative `int` becomes an `unsigned long` of more than half the range
        rw [← Int.add_emod_right, Int.emod_eq_of_lt (by omega) (by omega)]
        omega

theorem rightExpiry_iff (jiffies : BitVec p.w) :
    RightExpiry p jiffies (jiffies + p.period) ↔ p.PeriodFits := by
  have hdistance : jiffies + p.period - jiffies = p.period := by grind
  have hafter := timeAfter_add_iff jiffies p.period
  have hperiod := period_toNat p
  have hpow : ((2 ^ p.w : ℕ) : ℤ) = 2 ^ p.w := Int.natCast_pow 2 p.w
  constructor
  · intro h
    have hexact := h.exact
    rw [hdistance] at hexact
    obtain ⟨hpos, hhalf⟩ := hafter.mp h.after
    have h0 : 0 < p.ticks := by omega
    have h1 : 2 * p.ticks ≤ 2 ^ p.w := by omega
    exact ⟨h0, h1, (wrapped_eq_iff h0 h1).mp (hperiod.symm.trans hexact)⟩
  · intro h
    have hexact : (p.period.toNat : ℤ) = p.ticks :=
      hperiod.trans ((wrapped_eq_iff h.pos h.half).mpr h.int)
    have hpos := h.pos
    have hhalf := h.half
    refine ⟨hafter.mpr ⟨by omega, by omega⟩, ?_⟩
    rw [hdistance]
    exact hexact

/-! ## Runs -/

/-- Where the product fits, every expiry that is set is right. -/
theorem Params.PeriodFits.meets (h : p.PeriodFits) {s s' : State p.w} {as : List Action}
    (hrun : (program p).Run s as s') : (program p).Meets (ArmsRight p) as s := by
  induction hrun with
  | nil => trivial
  | cons _ _ ih =>
    refine ⟨?_, ih⟩
    intro ha
    rw [expires_of_arms _ ha, rightExpiry_iff]
    exact h

/-- `timer_start` up to the statement that sets the expiry. -/
def arming : List Action := [.printEntered, .initTimer, .customTimerInit]

/-- In every run, each expiry that is set is right, if and only if the product is positive
    and small enough. -/
theorem rearm_iff (p : Params) :
    (∀ s s' as, (program p).init s → (program p).Run s as s' →
      (program p).Meets (ArmsRight p) as s) ↔ p.PeriodFits := by
  constructor
  · intro hall
    have hrun := Program.run_of_exec (program p) arming (start 0) rfl
    have hmeets := hall _ _ _ ⟨0, rfl⟩ hrun
    have hright : RightExpiry p 0 (0 + p.period) := hmeets.2.2.1 trivial
    rwa [rightExpiry_iff] at hright
  · intro hfits s s' as _ hrun
    exact hfits.meets hrun

/-- The default of `time_period` sets the timer to expire at once. -/
theorem rearm_fails_default :
    ¬ ∀ s s' as, (program ⟨32, 250, defaultTimePeriod, "Vikrant"⟩).init s →
      (program ⟨32, 250, defaultTimePeriod, "Vikrant"⟩).Run s as s' →
      (program ⟨32, 250, defaultTimePeriod, "Vikrant"⟩).Meets
        (ArmsRight ⟨32, 250, defaultTimePeriod, "Vikrant"⟩) as s := by
  intro hall
  let p : Params := ⟨32, 250, defaultTimePeriod, "Vikrant"⟩
  have hrun := Program.run_of_exec (program p) arming (start 0) rfl
  have hmeets := hall _ _ _ ⟨0, rfl⟩ hrun
  have hright : RightExpiry p 0 (0 + p.period) := hmeets.2.2.1 trivial
  exact absurd hright.after (by decide)

end Apes.Timer
