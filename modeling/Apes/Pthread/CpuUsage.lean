import Mathlib.Data.Fintype.Basic
import Mathlib.Algebra.Order.Ring.Int

/-!
# The CPU usage of `child2_thread_callback`

The counters of a line of `/proc/stat` are `int`s. Their sums are `int` sums, stored in
variables of type `unsigned long long`; an `int` sum wraps at 32 bits, and a negative one is
widened to a number just below 2^64.
-/

namespace Apes.Pthread

/-- `int cpu[9]` -/
abbrev Cpu : Type := Vector Int32 9

/-- An `int` stored in a variable of type `unsigned long long`. -/
def toUnsignedLongLong (x : Int32) : UInt64 := x.toInt64.toUInt64

/-- `cpu_time = cpu[0]+cpu[1]+cpu[2]+cpu[3]+cpu[4]+cpu[5]+cpu[6]+cpu[7]` -/
def cpuTime (cpu : Cpu) : UInt64 :=
  toUnsignedLongLong
    (cpu[0] + cpu[1] + cpu[2] + cpu[3] + cpu[4] + cpu[5] + cpu[6] + cpu[7])

/-- `idle_time = cpu[3]+cpu[4]` -/
def idleTime (cpu : Cpu) : UInt64 := toUnsignedLongLong (cpu[3] + cpu[4])

/-- `cpu_usage = cpu_time-idle_time` -/
def cpuUsage (cpu : Cpu) : UInt64 := cpuTime cpu - idleTime cpu

/-- The exact sum of the eight counters. -/
def totalTicks (cpu : Cpu) : ℤ :=
  cpu[0].toInt + cpu[1].toInt + cpu[2].toInt + cpu[3].toInt + cpu[4].toInt + cpu[5].toInt +
    cpu[6].toInt + cpu[7].toInt

/-- The three results are the sums of the counters, and the difference does not wrap. -/
structure Exact (cpu : Cpu) : Prop where
  time : ((cpuTime cpu).toNat : ℤ) = totalTicks cpu
  idle : ((idleTime cpu).toNat : ℤ) = cpu[3].toInt + cpu[4].toInt
  usage : ((cpuUsage cpu).toNat : ℤ) = cpu[0].toInt + cpu[1].toInt + cpu[2].toInt +
    cpu[5].toInt + cpu[6].toInt + cpu[7].toInt
  le : cpuUsage cpu ≤ cpuTime cpu

/-- The widened value is that of the `int`, modulo 2^64. -/
theorem toNat_toUnsignedLongLong (x : Int32) :
    ((toUnsignedLongLong x).toNat : ℤ) = x.toInt % 2 ^ 64 := by
  have hnat : (toUnsignedLongLong x).toNat = x.toInt64.toBitVec.toNat := rfl
  have hint : x.toInt64.toBitVec.toInt = x.toInt := Int32.toInt_toInt64 x
  have hlt := x.toInt64.toBitVec.isLt
  rw [BitVec.toInt_eq_toNat_cond] at hint
  rw [hnat]
  split at hint <;> omega

/-- A sum that wraps at 32 bits and is widened then. -/
def widenedSum (z : ℤ) : ℤ := z.bmod (2 ^ 32) % 2 ^ 64

/-- From 2^31 on the sum is no longer exact. -/
theorem widenedSum_eq_iff {z : ℤ} (h0 : 0 ≤ z) (h : z < 2 ^ 34) :
    widenedSum z = z ↔ z < 2 ^ 31 := by
  have hmod : z.bmod (2 ^ 32) = if z % 2 ^ 32 < 2 ^ 31 then z % 2 ^ 32 else z % 2 ^ 32 - 2 ^ 32 :=
    rfl
  rw [widenedSum, hmod]
  split <;> omega

theorem cpuTime_eq (cpu : Cpu) : ((cpuTime cpu).toNat : ℤ) = widenedSum (totalTicks cpu) := by
  rw [cpuTime, toNat_toUnsignedLongLong]
  simp only [Int32.toInt_add, Int.bmod_add_bmod]
  rfl

theorem idleTime_eq (cpu : Cpu) :
    ((idleTime cpu).toNat : ℤ) = widenedSum (cpu[3].toInt + cpu[4].toInt) := by
  rw [idleTime, toNat_toUnsignedLongLong, Int32.toInt_add]
  rfl

/-- The counters that are summed are not negative. -/
def NonNegative (cpu : Cpu) : Prop := ∀ k : Fin 9, k < 8 → 0 ≤ (cpu.get k).toInt

instance (cpu : Cpu) : Decidable (NonNegative cpu) := Nat.decidableForallFin _

theorem NonNegative.range {cpu : Cpu} (h : NonNegative cpu) (k : Fin 9) (hk : k < 8) :
    0 ≤ (cpu.get k).toInt ∧ (cpu.get k).toInt < 2 ^ 31 :=
  ⟨h k hk, Int32.toInt_lt _⟩

/-- For counters that are not negative the three results are exact if and only if the sum
    of the eight counters is less than 2^31. -/
theorem exact_iff (cpu : Cpu) (h : NonNegative cpu) : Exact cpu ↔ totalTicks cpu < 2 ^ 31 := by
  have h0 : 0 ≤ cpu[0].toInt ∧ cpu[0].toInt < 2 ^ 31 := h.range 0 (by decide)
  have h1 : 0 ≤ cpu[1].toInt ∧ cpu[1].toInt < 2 ^ 31 := h.range 1 (by decide)
  have h2 : 0 ≤ cpu[2].toInt ∧ cpu[2].toInt < 2 ^ 31 := h.range 2 (by decide)
  have h3 : 0 ≤ cpu[3].toInt ∧ cpu[3].toInt < 2 ^ 31 := h.range 3 (by decide)
  have h4 : 0 ≤ cpu[4].toInt ∧ cpu[4].toInt < 2 ^ 31 := h.range 4 (by decide)
  have h5 : 0 ≤ cpu[5].toInt ∧ cpu[5].toInt < 2 ^ 31 := h.range 5 (by decide)
  have h6 : 0 ≤ cpu[6].toInt ∧ cpu[6].toInt < 2 ^ 31 := h.range 6 (by decide)
  have h7 : 0 ≤ cpu[7].toInt ∧ cpu[7].toInt < 2 ^ 31 := h.range 7 (by decide)
  have hsum : totalTicks cpu = cpu[0].toInt + cpu[1].toInt + cpu[2].toInt + cpu[3].toInt +
    cpu[4].toInt + cpu[5].toInt + cpu[6].toInt + cpu[7].toInt := rfl
  have htotal : widenedSum (totalTicks cpu) = totalTicks cpu ↔ totalTicks cpu < 2 ^ 31 :=
    widenedSum_eq_iff (by omega) (by omega)
  constructor
  · intro hexact
    rw [← htotal, ← cpuTime_eq]
    exact hexact.time
  · intro hlt
    have htime : ((cpuTime cpu).toNat : ℤ) = totalTicks cpu := by rw [cpuTime_eq, htotal.mpr hlt]
    have hidle : ((idleTime cpu).toNat : ℤ) = cpu[3].toInt + cpu[4].toInt := by
      rw [idleTime_eq, (widenedSum_eq_iff (by omega) (by omega)).mpr (by omega)]
    have hle : idleTime cpu ≤ cpuTime cpu := UInt64.le_iff_toNat_le.mpr (by omega)
    have husage : (cpuUsage cpu).toNat = (cpuTime cpu).toNat - (idleTime cpu).toNat :=
      UInt64.toNat_sub_of_le _ _ hle
    exact ⟨htime, hidle, by omega, UInt64.le_iff_toNat_le.mpr (by omega)⟩

/-- The counters of a machine that has been up for a short time. -/
theorem exact_iff_booted :
    let cpu : Cpu := #v[4705, 150, 1120, 16250, 520, 0, 17, 0, 0]
    Exact cpu ↔ totalTicks cpu < 2 ^ 31 :=
  exact_iff _ (by decide)

/-- Two counters of 2^30 ticks: the sum is negative, and so far too large when it is
    widened. -/
theorem exact_fails_negative :
    let cpu : Cpu := #v[1073741824, 0, 0, 1073741824, 0, 0, 0, 0, 0]
    NonNegative cpu ∧ cpuTime cpu = 18446744071562067968 ∧ ¬ Exact cpu := by
  refine ⟨by decide, by decide, ?_⟩
  intro h
  exact absurd h.time (by decide)

end Apes.Pthread
