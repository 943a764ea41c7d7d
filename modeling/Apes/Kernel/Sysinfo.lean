import Apes.Kernel.Creds

/-!
# `sysinfo`

The memory of the machine is counted in units of `mem_unit` bytes. `do_sysinfo` turns the
numbers into bytes where they fit an `unsigned long`, and the compatibility call turns them back
into pages where bytes do not fit 32 bits. No number is changed on the way but by the last
conversion to 32 bits, and there the numbers are right exactly where they fit as pages.

## Main definitions

- `doSysinfo`, `sysinfo`, `compatSysinfo`: the three functions
- `Sysinfo.bytes`: what the numbers stand for
- `MemInfo.Within`: no part is larger than the whole
-/

namespace Apes.Kernel

open Apes

/-- The memory fields of `struct sysinfo`. -/
@[ext] structure MemInfo (α : Type) where
  totalram : α
  freeram : α
  sharedram : α
  bufferram : α
  totalswap : α
  freeswap : α
  totalhigh : α
  freehigh : α
  deriving DecidableEq

namespace MemInfo

variable {α β : Type}

/-- The same is done to all fields. -/
def map (f : α → β) (m : MemInfo α) : MemInfo β :=
  ⟨f m.totalram, f m.freeram, f m.sharedram, f m.bufferram, f m.totalswap, f m.freeswap,
    f m.totalhigh, f m.freehigh⟩

def toList (m : MemInfo α) : List α :=
  [m.totalram, m.freeram, m.sharedram, m.bufferram, m.totalswap, m.freeswap, m.totalhigh,
    m.freehigh]

theorem map_eq_iff {γ : Type} {f : α → γ} {g : β → γ} {m : MemInfo α} {m' : MemInfo β} :
    m.map f = m'.map g ↔ m.toList.map f = m'.toList.map g := by
  simp [map, toList]

theorem map_eq_self {f : α → α} {m : MemInfo α} (h : ∀ x ∈ m.toList, f x = x) : m.map f = m :=
  (map_eq_iff (g := id)).mpr (List.map_congr_left h)

@[simp] theorem toList_map (f : α → β) (m : MemInfo α) : (m.map f).toList = m.toList.map f := rfl

end MemInfo

/-- `struct sysinfo`, and with 32 bits `struct compat_sysinfo` -/
structure Sysinfo (w : ℕ) where
  uptime : BitVec w
  loads : Vector (BitVec w) 3
  procs : UInt16
  mem : MemInfo (BitVec w)
  memUnit : BitVec 32
  deriving DecidableEq

/-- What the memory fields stand for. -/
def Sysinfo.bytes {w : ℕ} (info : Sysinfo w) : MemInfo ℕ :=
  info.mem.map fun x => x.toNat * info.memUnit.toNat

section Calls

variable {w : ℕ}

/-- `while (mem_unit > 1)`: the `bitcount` after the loop, none where it is left by `goto out` -/
def countBits (memUnit : BitVec 32) (memTotal : BitVec w) (bitcount : ℕ) : Option ℕ :=
  if 1 < memUnit.toNat then
    let savTotal := memTotal
    let memTotal := memTotal <<< 1
    if memTotal < savTotal then none else countBits (memUnit >>> 1) memTotal (bitcount + 1)
  else some bitcount
termination_by memUnit.toNat
decreasing_by
  rw [BitVec.toNat_ushiftRight, Nat.shiftRight_eq_div_pow]
  omega

/-- `tp.tv_sec + (tp.tv_nsec ? 1 : 0)` -/
def uptime (tvSec tvNsec : BitVec w) : BitVec w := tvSec + if tvNsec = 0 then 0 else 1

/-- `do_sysinfo`, with the boot time and with what `memset`, `get_avenrun`, `nr_threads`,
    `si_meminfo` and `si_swapinfo` have filled in. -/
def doSysinfo (tvSec tvNsec : BitVec w) (info : Sysinfo w) : Sysinfo w :=
  let info := { info with uptime := uptime tvSec tvNsec }
  let memTotal := info.mem.totalram + info.mem.totalswap
  if memTotal < info.mem.totalram ∨ memTotal < info.mem.totalswap then info
  else
    match countBits info.memUnit memTotal 0 with
    | none => info
    | some bitcount =>
      { info with memUnit := 1, mem := info.mem.map fun x : BitVec w => x <<< bitcount }

def sysinfo (copyToUser : Bool) (tvSec tvNsec : BitVec w) (info : Sysinfo w) :
    Except Errno (Sysinfo w) :=
  if copyToUser then .ok (doSysinfo tvSec tvNsec info) else .error .EFAULT

/-- `while (s.mem_unit < PAGE_SIZE)`, none where it goes on after so many rounds. -/
def growUnit (pageShift : ℕ) : ℕ → BitVec 32 → ℕ → Option (BitVec 32 × ℕ)
  | 0, _, _ => none
  | rounds + 1, memUnit, bitcount =>
    if memUnit.toNat < 2 ^ pageShift then
      growUnit pageShift rounds (memUnit <<< 1) (bitcount + 1)
    else some (memUnit, bitcount)

/-- Where a number does not fit 32 bits, all are scaled down to pages. After 32 rounds the unit
    is zero, so that the loop never ends if it has not ended then. -/
def scaleDown (pageShift : ℕ) (s : Sysinfo 64) : Option (Sysinfo 64) :=
  if 2 ^ 32 ≤ s.mem.totalram.toNat ∨ 2 ^ 32 ≤ s.mem.totalswap.toNat then
    (growUnit pageShift 33 s.memUnit 0).map fun r =>
      { s with memUnit := r.1, mem := s.mem.map fun x : BitVec 64 => x >>> r.2 }
  else some s

/-- The fields as `__put_user` writes them. -/
def toCompat (s : Sysinfo 64) : Sysinfo 32 :=
  ⟨s.uptime.setWidth 32, s.loads.map (·.setWidth 32), s.procs, s.mem.map (·.setWidth 32),
    s.memUnit⟩

/-- The compatibility call: the answers are those of `access_ok` and of the fourteen
    `__put_user`; none where it does not return. -/
def compatSysinfo (pageShift : ℕ) (accessOk putUser : Bool) (tvSec tvNsec : BitVec 64)
    (info : Sysinfo 64) : Option (Except Errno (Sysinfo 32)) :=
  (scaleDown pageShift (doSysinfo tvSec tvNsec info)).map fun s =>
    if accessOk ∧ putUser then .ok (toCompat s) else .error .EFAULT

end Calls

/-- No part of the memory is larger than the whole. -/
structure MemInfo.Within {w : ℕ} (m : MemInfo (BitVec w)) : Prop where
  freeram : m.freeram ≤ m.totalram
  sharedram : m.sharedram ≤ m.totalram
  bufferram : m.bufferram ≤ m.totalram
  freeswap : m.freeswap ≤ m.totalswap
  totalhigh : m.totalhigh ≤ m.totalram
  freehigh : m.freehigh ≤ m.totalhigh

section Scaling

variable {w : ℕ}

/-- The loop doubles the sum once for each doubling in the unit, and notices when it does not
    fit any more. -/
theorem countBits_eq {n : ℕ} {memUnit : BitVec 32} (hunit : memUnit.toNat = 2 ^ n)
    (memTotal : BitVec w) (bitcount : ℕ) :
    countBits memUnit memTotal bitcount =
      if memTotal.toNat * 2 ^ n < 2 ^ w then some (bitcount + n) else none := by
  induction n generalizing memUnit memTotal bitcount with
  | zero =>
    rw [countBits, if_neg (by omega), if_pos (by simpa using memTotal.isLt)]
    rfl
  | succ n ih =>
    have hpow : 2 ^ (n + 1) = 2 * 2 ^ n := Nat.pow_succ'
    have hpos : 0 < 2 ^ n := Nat.two_pow_pos n
    have hhalf : (memUnit >>> 1).toNat = 2 ^ n := by
      rw [BitVec.toNat_ushiftRight, Nat.shiftRight_eq_div_pow, hunit, hpow]
      omega
    have hdouble : (memTotal <<< 1).toNat = memTotal.toNat * 2 % 2 ^ w := by
      rw [BitVec.toNat_shiftLeft, Nat.shiftLeft_eq, Nat.pow_one]
    have hlt := memTotal.isLt
    rw [countBits, if_pos (by omega)]
    by_cases hfit : memTotal.toNat * 2 < 2 ^ w
    · rw [Nat.mod_eq_of_lt hfit] at hdouble
      rw [if_neg (by rw [BitVec.lt_def]; omega), ih hhalf, hdouble, hpow, Nat.mul_assoc,
        Nat.add_assoc, Nat.add_comm 1 n]
    · have hsmaller : memTotal <<< 1 < memTotal := by
        rw [BitVec.lt_def, hdouble, Nat.mod_eq_sub_mod (by omega), Nat.mod_eq_of_lt (by omega)]
        omega
      have hbig : ¬ memTotal.toNat * 2 ^ (n + 1) < 2 ^ w := by
        rw [hpow, ← Nat.mul_assoc]
        have := Nat.le_mul_of_pos_right (memTotal.toNat * 2) hpos
        omega
      rw [if_pos hsmaller, if_neg hbig]

theorem MemInfo.Within.le_max {m : MemInfo (BitVec w)} (h : m.Within) :
    ∀ x ∈ m.toList, x.toNat ≤ max m.totalram.toNat m.totalswap.toNat := by
  obtain ⟨hfree, hshared, hbuffer, hswap, hhigh, hfreehigh⟩ := h
  simp only [BitVec.le_def] at hfree hshared hbuffer hswap hhigh hfreehigh
  simp only [MemInfo.toList, List.forall_mem_cons, List.not_mem_nil, false_imp_iff, implies_true,
    and_true]
  omega

theorem MemInfo.Within.le_total {m : MemInfo (BitVec w)} (h : m.Within) :
    ∀ x ∈ m.toList, x.toNat ≤ m.totalram.toNat + m.totalswap.toNat := fun x hx =>
  (h.le_max x hx).trans (max_le (Nat.le_add_right _ _) (Nat.le_add_left _ _))

theorem toNat_shiftLeft_of_fits {x : BitVec w} {n total : ℕ} (hle : x.toNat ≤ total)
    (hfit : total * 2 ^ n < 2 ^ w) : (x <<< n).toNat = x.toNat * 2 ^ n := by
  rw [BitVec.toNat_shiftLeft, Nat.shiftLeft_eq]
  exact Nat.mod_eq_of_lt ((Nat.mul_le_mul_right _ hle).trans_lt hfit)

variable {info : Sysinfo w} {n : ℕ} {tvSec tvNsec : BitVec w}

variable (tvSec tvNsec) in
/-- `do_sysinfo` scales all numbers if their sum fits in bytes, and none otherwise. -/
theorem doSysinfo_eq (hunit : info.memUnit.toNat = 2 ^ n) :
    ((doSysinfo tvSec tvNsec info).mem, (doSysinfo tvSec tvNsec info).memUnit) =
      if (info.mem.totalram.toNat + info.mem.totalswap.toNat) * 2 ^ n < 2 ^ w then
        (info.mem.map fun x : BitVec w => x <<< n, 1)
      else (info.mem, info.memUnit) := by
  have hram := info.mem.totalram.isLt
  have hswap := info.mem.totalswap.isLt
  have hsum : (info.mem.totalram + info.mem.totalswap).toNat =
      (info.mem.totalram.toNat + info.mem.totalswap.toNat) % 2 ^ w := BitVec.toNat_add _ _
  have hpos : 0 < 2 ^ n := Nat.two_pow_pos n
  unfold doSysinfo
  dsimp only
  by_cases hfit : info.mem.totalram.toNat + info.mem.totalswap.toNat < 2 ^ w
  · rw [Nat.mod_eq_of_lt hfit] at hsum
    rw [if_neg (by simp only [BitVec.lt_def]; omega), countBits_eq hunit, hsum, Nat.zero_add]
    split_ifs <;> rfl
  · have hwrap : info.mem.totalram + info.mem.totalswap < info.mem.totalram := by
      rw [BitVec.lt_def, hsum, Nat.mod_eq_sub_mod (by omega), Nat.mod_eq_of_lt (by omega)]
      omega
    have hbig := Nat.le_mul_of_pos_right (info.mem.totalram.toNat + info.mem.totalswap.toNat) hpos
    rw [if_pos (Or.inl hwrap), if_neg (by omega)]

variable (tvSec tvNsec) in
/-- The numbers stand for the same amounts of memory as before. -/
theorem doSysinfo_bytes (hunit : info.memUnit.toNat = 2 ^ n) (hmem : info.mem.Within) :
    (doSysinfo tvSec tvNsec info).bytes = info.bytes := by
  have heq := doSysinfo_eq tvSec tvNsec hunit
  unfold Sysinfo.bytes
  split at heq
  · next hfit =>
    obtain ⟨hm, hu⟩ := Prod.mk.inj heq
    rw [hm, hu, MemInfo.map_eq_iff, MemInfo.toList_map, List.map_map]
    refine List.map_congr_left fun x hx => ?_
    rw [Function.comp_apply, toNat_shiftLeft_of_fits (hmem.le_total x hx) hfit, hunit]
    exact Nat.mul_one _
  · obtain ⟨hm, hu⟩ := Prod.mk.inj heq
    rw [hm, hu]

end Scaling

/-! ## The compatibility call -/

section Compat

variable {pageShift : ℕ} {info : Sysinfo 64}

theorem growUnit_eq {memUnit : BitVec 32} {n d rounds : ℕ} (hunit : memUnit.toNat = 2 ^ n)
    (hsum : n + d = pageShift) (hpage : pageShift < 32) (hrounds : d < rounds) (bitcount : ℕ) :
    growUnit pageShift rounds memUnit bitcount =
      some (BitVec.ofNat 32 (2 ^ pageShift), bitcount + d) := by
  induction d generalizing memUnit n rounds bitcount with
  | zero =>
    obtain ⟨rounds, rfl⟩ := Nat.exists_eq_succ_of_ne_zero (Nat.ne_of_gt hrounds)
    have hlast : memUnit = BitVec.ofNat 32 (2 ^ pageShift) := by
      rw [← hsum, Nat.add_zero, ← hunit, BitVec.ofNat_toNat, BitVec.setWidth_eq]
    rw [growUnit, if_neg (by rw [hunit, ← hsum]; exact lt_irrefl _), hlast]
    rfl
  | succ d ih =>
    obtain ⟨rounds, rfl⟩ := Nat.exists_eq_succ_of_ne_zero (Nat.ne_of_gt (Nat.zero_lt_of_lt hrounds))
    have hless : 2 ^ n < 2 ^ pageShift := Nat.pow_lt_pow_right (by decide) (by omega)
    have hdouble : (memUnit <<< 1).toNat = 2 ^ (n + 1) := by
      have hfit : 2 ^ n * 2 ^ 1 < 2 ^ 32 := by
        rw [← Nat.pow_add]
        exact Nat.pow_lt_pow_right (by decide) (by omega)
      rw [toNat_shiftLeft_of_fits hunit.le hfit, hunit, ← Nat.pow_add]
    rw [growUnit, if_pos (hunit ▸ hless), ih hdouble (by omega) (by omega)]
    rw [show bitcount + 1 + d = bitcount + (d + 1) by omega]

/-- Pages are read as they are where they fit 32 bits. -/
theorem pages_iff (hmem : info.mem.Within) {unit : ℕ} (hunit : 0 < unit) :
    ((info.mem.map (·.setWidth 32)).map fun x : BitVec 32 => x.toNat * unit) =
        (info.mem.map fun x => x.toNat * unit) ↔
      info.mem.totalram.toNat < 2 ^ 32 ∧ info.mem.totalswap.toNat < 2 ^ 32 := by
  rw [MemInfo.map_eq_iff, MemInfo.toList_map, List.map_map, List.map_inj_left]
  have hfits : ∀ x : BitVec 64, (x.setWidth 32).toNat * unit = x.toNat * unit ↔
      x.toNat < 2 ^ 32 := by
    intro x
    rw [Nat.mul_left_inj hunit.ne', BitVec.toNat_setWidth]
    exact Nat.mod_eq_iff_lt (by decide)
  constructor
  · intro h
    exact ⟨(hfits _).mp (h _ (by simp [MemInfo.toList])),
      (hfits _).mp (h _ (by simp [MemInfo.toList]))⟩
  · rintro ⟨hram, hswap⟩ x hx
    exact (hfits x).mpr ((hmem.le_max x hx).trans_lt (max_lt hram hswap))

/-- The compatibility call finds pages, as they were counted, or bytes that fit 32 bits. -/
theorem exists_scaleDown (hpage : pageShift < 32) (hunit : info.memUnit.toNat = 2 ^ pageShift)
    (hmem : info.mem.Within) (tvSec tvNsec : BitVec 64) :
    ∃ s, scaleDown pageShift (doSysinfo tvSec tvNsec info) = some s ∧
      ((s.mem, s.memUnit) = (info.mem, info.memUnit) ∨
        s = doSysinfo tvSec tvNsec info ∧ (∀ x ∈ s.mem.toList, x.toNat < 2 ^ 32) ∧
          ∀ x ∈ info.mem.toList, x.toNat < 2 ^ 32) := by
  have heq := doSysinfo_eq tvSec tvNsec hunit
  generalize doSysinfo tvSec tvNsec info = s at heq
  have hpages : info.memUnit = BitVec.ofNat 32 (2 ^ pageShift) := by
    rw [← hunit, BitVec.ofNat_toNat, BitVec.setWidth_eq]
  unfold scaleDown
  split at heq
  · next hfit =>
    obtain ⟨hm, hu⟩ := Prod.mk.inj heq
    have hshift : ∀ x ∈ info.mem.toList, (x <<< pageShift).toNat = x.toNat * 2 ^ pageShift :=
      fun x hx => toNat_shiftLeft_of_fits (hmem.le_total x hx) hfit
    split
    · rw [growUnit_eq (n := 0) (hu ▸ rfl) (Nat.zero_add _) hpage (by omega), Nat.zero_add]
      refine ⟨_, rfl, Or.inl (Prod.ext ?_ hpages.symm)⟩
      rw [hm]
      refine MemInfo.map_eq_self (f := fun x : BitVec 64 => x <<< pageShift >>> pageShift)
        fun x hx => BitVec.eq_of_toNat_eq ?_
      rw [BitVec.toNat_ushiftRight, hshift x hx, Nat.shiftRight_eq_div_pow]
      exact Nat.mul_div_cancel _ (Nat.two_pow_pos _)
    · next hsmall =>
      rw [not_or, not_le, not_le, hm] at hsmall
      have hbytes : ∀ x ∈ info.mem.toList, x.toNat * 2 ^ pageShift < 2 ^ 32 := by
        intro x hx
        rcases le_max_iff.mp (hmem.le_max x hx) with hle | hle
        · refine (Nat.mul_le_mul_right _ hle).trans_lt ?_
          exact hshift info.mem.totalram (by simp [MemInfo.toList]) ▸ hsmall.1
        · refine (Nat.mul_le_mul_right _ hle).trans_lt ?_
          exact hshift info.mem.totalswap (by simp [MemInfo.toList]) ▸ hsmall.2
      refine ⟨s, rfl, Or.inr ⟨rfl, ?_, fun x hx => ?_⟩⟩
      · rw [hm, MemInfo.toList_map, List.forall_mem_map]
        exact fun x hx => hshift x hx ▸ hbytes x hx
      · exact (Nat.le_mul_of_pos_right _ (Nat.two_pow_pos _)).trans_lt (hbytes x hx)
  · obtain ⟨hm, hu⟩ := Prod.mk.inj heq
    split
    · rw [growUnit_eq (hu ▸ hunit) (Nat.add_zero _) hpage (by omega)]
      refine ⟨_, rfl, Or.inl (Prod.ext ?_ hpages.symm)⟩
      rw [← hm]
      exact MemInfo.map_eq_self fun x _ => BitVec.ushiftRight_zero x
    · exact ⟨s, rfl, Or.inl heq⟩

/-- On a kernel with 64 bits, programs with 64 bits always read the amounts of memory that there
    are. Programs with 32 bits read them exactly where the memory and the swap space each have
    fewer than `2 ^ 32` pages. -/
theorem sysinfo_exact (hpage : pageShift < 32) (hunit : info.memUnit.toNat = 2 ^ pageShift)
    (hmem : info.mem.Within) (tvSec tvNsec : BitVec 64) :
    (∃ r, sysinfo true tvSec tvNsec info = .ok r ∧ r.bytes = info.bytes) ∧
      ∃ r, compatSysinfo pageShift true true tvSec tvNsec info = some (.ok r) ∧
        (r.bytes = info.bytes ↔
          info.mem.totalram.toNat < 2 ^ 32 ∧ info.mem.totalswap.toNat < 2 ^ 32) := by
  have hsame := doSysinfo_bytes tvSec tvNsec hunit hmem
  refine ⟨⟨_, rfl, hsame⟩, ?_⟩
  have hpos : 0 < info.memUnit.toNat := hunit ▸ Nat.two_pow_pos pageShift
  obtain ⟨s, hs, hcases⟩ := exists_scaleDown hpage hunit hmem tvSec tvNsec
  refine ⟨toCompat s, by simp [compatSysinfo, hs], ?_⟩
  rcases hcases with hpages | ⟨rfl, hsmall, hfew⟩
  · obtain ⟨hm, hu⟩ := Prod.mk.inj hpages
    rw [Sysinfo.bytes, toCompat, hm, hu]
    exact pages_iff hmem hpos
  · refine iff_of_true (Eq.trans ?_ hsame) ?_
    · rw [Sysinfo.bytes, Sysinfo.bytes, toCompat, MemInfo.map_eq_iff, MemInfo.toList_map,
        List.map_map]
      refine List.map_congr_left fun x hx => ?_
      rw [Function.comp_apply, BitVec.toNat_setWidth, Nat.mod_eq_of_lt (hsmall x hx)]
    · exact ⟨hfew _ (by simp [MemInfo.toList]), hfew _ (by simp [MemInfo.toList])⟩

/-- A machine with 32 gigabytes of memory and no swap space, in pages of 4096 bytes. -/
def bigMachine : Sysinfo 64 where
  uptime := 0
  loads := Vector.replicate 3 0
  procs := 100
  mem := ⟨0x800000, 0x100000, 0, 0, 0, 0, 0, 0⟩
  memUnit := 4096

theorem sysinfo_exact_big_machine :
    ∃ r, compatSysinfo 12 true true 5 1 bigMachine = some (.ok r) ∧
      r.bytes.totalram = 32 * 2 ^ 30 := by
  have hmem : bigMachine.mem.Within := by constructor <;> decide
  obtain ⟨r, hr, hexact⟩ := (sysinfo_exact (show 12 < 32 by decide) (by decide) hmem 5 1).2
  exact ⟨r, hr, by rw [hexact.mpr (by decide)]; decide⟩

end Compat

end Apes.Kernel
