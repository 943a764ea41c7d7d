import Apes.Kernel.RlimitsRuns

/-!
# Reading limits and writing them back

`prlimit64` reads what it has set, up to what an `unsigned long` cannot hold, and accepts
what it reads. The compatibility calls do not: a hard limit of `2 ^ 32 - 1` or more reads as
infinity, and it takes a capability to raise it to that.
-/

namespace Apes.Kernel

open Apes

variable {γ : Type} [DecidableEq γ] {arch : Arch}

/-! ## The conversions -/

theorem toLong_toRlim64 (y : BitVec arch.bits) : toLong arch (toRlim64 y) = y := by
  unfold toLong toRlim64
  cases arch with
  | bits32 =>
    by_cases hy : y = infinity Arch.bits32.bits
    · subst hy
      rfl
    · have hlt : y.toNat ≠ 2 ^ 32 - 1 := fun h => hy (BitVec.eq_of_toNat_eq h)
      have hle : y.toNat < 2 ^ 32 := y.isLt
      have hwide : (y.setWidth 64).toNat = y.toNat :=
        (BitVec.toNat_setWidth 64 y).trans (Nat.mod_eq_of_lt (by omega))
      have hsmall : ¬ rlim64IsInfinity .bits32 (y.setWidth 64) := by
        simp only [rlim64IsInfinity, hwide]
        omega
      rw [if_neg hy, if_neg hsmall]
      apply BitVec.eq_of_toNat_eq
      rw [BitVec.toNat_setWidth, hwide]
      exact Nat.mod_eq_of_lt hle
  | bits64 =>
    by_cases hy : y = infinity Arch.bits64.bits
    · subst hy
      rfl
    · have hsmall : ¬ rlim64IsInfinity .bits64 (y.setWidth 64) := by
        rw [show y.setWidth 64 = y from BitVec.setWidth_eq y]
        exact hy
      rw [if_neg hy, if_neg hsmall]
      exact (BitVec.setWidth_eq _).trans (BitVec.setWidth_eq y)

/-- What is read for a limit that has been set to `x`. -/
def readBack (arch : Arch) (x : BitVec 64) : BitVec 64 :=
  if rlim64IsInfinity arch x then infinity 64 else x

theorem toRlim64_toLong (arch : Arch) (x : BitVec 64) :
    toRlim64 (toLong arch x) = readBack arch x := by
  unfold toRlim64 toLong readBack
  by_cases hx : rlim64IsInfinity arch x
  · rw [if_pos hx, if_pos hx, if_pos rfl]
  · rw [if_neg hx, if_neg hx]
    cases arch with
    | bits32 =>
      simp only [rlim64IsInfinity] at hx
      have hne : x.setWidth 32 ≠ infinity 32 := by
        intro heq
        have hval := congrArg BitVec.toNat heq
        rw [BitVec.toNat_setWidth, show (infinity 32).toNat = 2 ^ 32 - 1 from rfl] at hval
        omega
      rw [if_neg (show ¬ x.setWidth Arch.bits32.bits = infinity Arch.bits32.bits from hne)]
      apply BitVec.eq_of_toNat_eq
      simp only [BitVec.toNat_setWidth, Arch.bits]
      omega
    | bits64 =>
      have hne : ¬ x.setWidth Arch.bits64.bits = infinity Arch.bits64.bits :=
        fun heq => hx ((BitVec.setWidth_eq x).symm.trans heq)
      rw [if_neg hne]
      exact (BitVec.setWidth_eq _).trans (BitVec.setWidth_eq x)

theorem rlim64ToRlim_rlimToRlim64 (r : Rlimit arch.bits) :
    rlim64ToRlim arch (rlimToRlim64 r) = r := by
  rw [rlim64ToRlim, rlimToRlim64, toLong_toRlim64, toLong_toRlim64]

/-! ## `do_prlimit` -/

variable {cfg : LimitConfig} {k : LimitAnswers} {uid gid : UInt32} {tsk : Thread γ}
  {resource : ℕ} {s : Limits arch γ}

/-- Where `do_prlimit` does not fail, the process is there. -/
theorem place_of_doPrlimit {newRlim : Option (Rlimit arch.bits)} {old : Rlimit arch.bits}
    (h : (doPrlimit cfg k tsk resource newRlim s).1 = .ok old) :
    resource < RLIM_NLIMITS ∧ tsk.sighand = true := by
  unfold doPrlimit at h
  split at h
  · cases h
  next hres =>
  split at h
  · cases h
  split at h
  · cases h
  split at h
  · cases h
  next hsig => exact ⟨by omega, (Bool.not_eq_false _).mp hsig⟩

theorem doPrlimit_read (hplace : resource < RLIM_NLIMITS ∧ tsk.sighand = true) :
    doPrlimit cfg k tsk resource none s = (.ok (s.rlim tsk.signal resource), s) := by
  unfold doPrlimit
  rw [if_neg (Nat.not_le_of_lt hplace.1)]
  simp [hplace.2]

/-- Where `do_prlimit` does not fail, it has stored the limit. -/
theorem stores_of_doPrlimit {new old : Rlimit arch.bits}
    (h : (doPrlimit cfg k tsk resource (some new) s).1 = .ok old) :
    Stores cfg k.capable tsk.signal resource new s
      (doPrlimit cfg k tsk resource (some new) s).2 := by
  rcases doPrlimit_cases cfg k tsk resource (some new) s with
    ⟨e, he⟩ | ⟨hnone, -⟩ | ⟨new', s', hnew, hstores, hs'⟩
  · rw [he] at h
    cases h
  · cases hnone
  · obtain rfl := Option.some.inj hnew
    rwa [hs']

/-- `getrlimit` reads what `setrlimit` has set. -/
theorem getrlimit_setrlimit {k' : LimitAnswers} {rlim : Rlimit arch.bits}
    (hset : (setrlimit cfg k tsk resource rlim s).1 = .ok ()) (hcopy : k'.copyToUser = true) :
    getrlimit cfg k' tsk resource (setrlimit cfg k tsk resource rlim s).2 =
      .ok (stored resource rlim) := by
  unfold setrlimit at hset ⊢
  by_cases hfrom : k.copyFromUser = true
  · rw [if_pos hfrom] at hset ⊢
    cases hdo : (doPrlimit cfg k tsk resource (some rlim) s).1 with
    | error e => simp [hdo, Except.map] at hset
    | ok old =>
      unfold getrlimit
      rw [doPrlimit_read (place_of_doPrlimit hdo), (stores_of_doPrlimit hdo).rlim_eq]
      exact if_pos hcopy
  · rw [if_neg hfrom] at hset
    cases hset

/-! ## `prlimit64` -/

/-- Nothing but the checks of `do_prlimit` can fail. -/
structure LimitAnswers.Serves (k : LimitAnswers) (uid gid : UInt32) (tsk : Thread γ) : Prop where
  copyFromUser : k.copyFromUser = true
  copyToUser : k.copyToUser = true
  setrlimit : k.setrlimit = none
  permission : checkPrlimitPermission k uid gid tsk = none

theorem prlimit64_eq (hk : k.Serves uid gid tsk) (newRlim : Option (Rlimit 64))
    (oldRlim : Bool) :
    prlimit64 cfg k uid gid (some tsk) resource newRlim oldRlim s =
      copyOld k oldRlim
        (doPrlimit cfg k tsk resource (newRlim.map (rlim64ToRlim arch)) s) := by
  unfold prlimit64
  rw [if_neg (by simp [hk.copyFromUser])]
  dsimp only
  rw [hk.permission]

/-- `prlimit64` reads the limit of a process that is there. -/
theorem prlimit64_read (hk : k.Serves uid gid tsk)
    (hplace : resource < RLIM_NLIMITS ∧ tsk.sighand = true) :
    prlimit64 cfg k uid gid (some tsk) resource none true s =
      (.ok (some (rlimToRlim64 (s.rlim tsk.signal resource))), s) := by
  rw [prlimit64_eq hk, Option.map_none, doPrlimit_read hplace]
  simp [copyOld, hk.copyToUser]

/-- A limit that is read belongs to a process that is there. -/
theorem of_prlimit64_read (hk : k.Serves uid gid tsk) {r : Rlimit 64}
    (hread : (prlimit64 cfg k uid gid (some tsk) resource none true s).1 = .ok (some r)) :
    (resource < RLIM_NLIMITS ∧ tsk.sighand = true) ∧
      r = rlimToRlim64 (s.rlim tsk.signal resource) := by
  have hplace : resource < RLIM_NLIMITS ∧ tsk.sighand = true := by
    rw [prlimit64_eq hk, Option.map_none] at hread
    cases hdo : (doPrlimit cfg k tsk resource none s).1 with
    | ok old => exact place_of_doPrlimit hdo
    | error e =>
      rw [copyOld, hdo] at hread
      cases hread
  refine ⟨hplace, ?_⟩
  rw [prlimit64_read hk hplace] at hread
  exact (Option.some.inj (Except.ok.inj hread)).symm

theorem toLong_eq_zero {x : BitVec 64} : toLong arch x = 0 ↔ x = 0 := by
  have hzero : toRlim64 (0 : BitVec arch.bits) = 0 := by cases arch <;> decide
  constructor
  · intro h
    have hback := toRlim64_toLong arch x
    rw [h, hzero, readBack] at hback
    split at hback
    · cases hback
    · exact hback.symm
  · rintro rfl
    cases arch <;> decide

/-- What is read of a limit that has been stored. -/
theorem rlimToRlim64_stored (resource : ℕ) (new : Rlimit 64) :
    rlimToRlim64 (stored resource (rlim64ToRlim arch new)) =
      ⟨if resource = RLIMIT_CPU ∧ new.cur = 0 then 1 else readBack arch new.cur,
        readBack arch new.max⟩ := by
  have hone : toRlim64 (1 : BitVec arch.bits) = 1 := by cases arch <;> decide
  unfold stored
  by_cases hzero : resource = RLIMIT_CPU ∧ new.cur = 0
  · have hlong : resource = RLIMIT_CPU ∧ (rlim64ToRlim arch new).cur = 0 :=
      ⟨hzero.1, toLong_eq_zero.mpr hzero.2⟩
    rw [if_pos hlong, if_pos hzero, rlimToRlim64, hone, rlim64ToRlim, toRlim64_toLong]
  · have hlong : ¬ (resource = RLIMIT_CPU ∧ (rlim64ToRlim arch new).cur = 0) :=
      fun h => hzero ⟨h.1, toLong_eq_zero.mp h.2⟩
    rw [if_neg hlong, if_neg hzero, rlimToRlim64, rlim64ToRlim, toRlim64_toLong, toRlim64_toLong]

/-- `do_prlimit` does not fail for a limit that it has nothing against. -/
theorem doPrlimit_ok (new : Rlimit arch.bits) (hk : k.setrlimit = none)
    (hplace : resource < RLIM_NLIMITS ∧ tsk.sighand = true) (hle : new.cur ≤ new.max)
    (hopen : resource = RLIMIT_NOFILE → new.max.toNat ≤ cfg.nrOpen)
    (hhard : new.max ≤ (s.rlim tsk.signal resource).max) :
    (doPrlimit cfg k tsk resource (some new) s).1 = .ok (s.rlim tsk.signal resource) ∧
      (doPrlimit cfg k tsk resource (some new) s).2.rlim =
        (s.set tsk.signal resource (stored resource new)).rlim := by
  have hcur : ¬ new.max < new.cur := BitVec.not_lt.mpr hle
  have hfiles : ¬ (resource = RLIMIT_NOFILE ∧ cfg.nrOpen < new.max.toNat) :=
    fun h => (hopen h.1).not_gt h.2
  unfold doPrlimit
  rw [if_neg (Nat.not_le_of_lt hplace.1), if_neg (by simpa using hcur),
    if_neg (by simpa using hfiles), if_neg (by simp [hplace.2])]
  dsimp only
  rw [if_neg fun h => BitVec.not_lt.mpr hhard h.1, hk]
  dsimp only
  split
  · exact ⟨rfl, rfl⟩
  · exact ⟨rfl, rfl⟩

/-- What is set is read back, with the second that stands for a CPU limit of zero; and what is
    read is accepted without a capability and changes nothing, but where that second exceeds
    the hard limit. -/
theorem prlimit64_round_trip (arch : Arch) (cfg : LimitConfig) (k k' : LimitAnswers)
    (uid gid : UInt32) (tsk : Thread γ) (resource : ℕ) (s : Limits arch γ)
    (hk : k.Serves uid gid tsk) (hk' : k'.Serves uid gid tsk) :
    (∀ new, (prlimit64 cfg k uid gid (some tsk) resource (some new) false s).1 = .ok none →
      (prlimit64 cfg k' uid gid (some tsk) resource none true
        (prlimit64 cfg k uid gid (some tsk) resource (some new) false s).2).1 =
        .ok (some ⟨if resource = RLIMIT_CPU ∧ new.cur = 0 then 1 else readBack arch new.cur,
          readBack arch new.max⟩)) ∧
    ∀ r, Sound cfg resource (s.rlim tsk.signal resource) →
      (prlimit64 cfg k uid gid (some tsk) resource none true s).1 = .ok (some r) →
      ((prlimit64 cfg k' uid gid (some tsk) resource (some r) false s).1 = .ok none ↔
        (s.rlim tsk.signal resource).cur ≤ (s.rlim tsk.signal resource).max) ∧
      (prlimit64 cfg k' uid gid (some tsk) resource (some r) false s).2.rlim = s.rlim := by
  constructor
  · intro new hset
    rw [prlimit64_eq hk, Option.map_some] at hset ⊢
    rw [copyOld_snd]
    cases hdo : (doPrlimit cfg k tsk resource (some (rlim64ToRlim arch new)) s).1 with
    | error e =>
      rw [copyOld, hdo] at hset
      cases hset
    | ok old =>
      rw [prlimit64_read hk' (place_of_doPrlimit hdo), (stores_of_doPrlimit hdo).rlim_eq,
        rlimToRlim64_stored]
  · intro r hsound hread
    obtain ⟨hplace, rfl⟩ := of_prlimit64_read hk hread
    have hstored : stored resource (s.rlim tsk.signal resource) = s.rlim tsk.signal resource :=
      if_neg fun h => hsound.cpu h.1 h.2
    rw [prlimit64_eq hk', copyOld_snd, Option.map_some, rlim64ToRlim_rlimToRlim64]
    by_cases hle : (s.rlim tsk.signal resource).cur ≤ (s.rlim tsk.signal resource).max
    · obtain ⟨hok, hset⟩ := doPrlimit_ok _ hk'.setrlimit hplace hle hsound.nofile
        (BitVec.le_refl _)
      refine ⟨iff_of_true ?_ hle, hset.trans ?_⟩
      · simp [copyOld, hok]
      · rw [hstored]
        simp [Limits.set]
    · have herr : doPrlimit cfg k' tsk resource (some (s.rlim tsk.signal resource)) s =
          (.error .EINVAL, s) := by
        unfold doPrlimit
        rw [if_neg (Nat.not_le_of_lt hplace.1), if_pos (by simpa using hle)]
      rw [herr]
      exact ⟨iff_of_false (fun h => by cases h) hle, rfl⟩

theorem serves_limitGranted : limitGranted.Serves 0 0 oneThread := ⟨rfl, rfl, rfl, rfl⟩

theorem prlimit64_round_trip_files :
    (prlimit64 bootConfig limitGranted 0 0 (some oneThread) RLIMIT_NOFILE none true
      (prlimit64 bootConfig limitGranted 0 0 (some oneThread) RLIMIT_NOFILE (some ⟨512, 2048⟩)
        false bootLimits).2).1 = .ok (some ⟨512, 2048⟩) :=
  (prlimit64_round_trip .bits64 bootConfig limitGranted limitGranted 0 0 oneThread RLIMIT_NOFILE
    bootLimits serves_limitGranted serves_limitGranted).1 ⟨512, 2048⟩ (by decide)

/-! ## The compatibility calls -/

section Compat

variable {x y : BitVec Arch.bits64.bits}

/-- A limit that the compatibility calls have read and written back. -/
def compatBack (x : BitVec Arch.bits64.bits) : BitVec Arch.bits64.bits :=
  if 2 ^ 32 - 1 ≤ x.toNat then infinity _ else x

theorem compatToLong_longToCompat (x : BitVec Arch.bits64.bits) :
    compatToLong .bits64 (longToCompat x) = compatBack x := by
  have htop : (infinity 32).toNat = 2 ^ 32 - 1 := rfl
  unfold compatToLong longToCompat compatBack
  by_cases hbig : 2 ^ 32 - 1 < x.toNat
  · rw [if_pos hbig, if_pos rfl, if_pos hbig.le]
  · rw [if_neg hbig]
    have hnarrow : (x.setWidth 32).toNat = x.toNat :=
      (BitVec.toNat_setWidth 32 x).trans (Nat.mod_eq_of_lt (by omega))
    by_cases heq : x.toNat = 2 ^ 32 - 1
    · rw [if_pos (BitVec.eq_of_toNat_eq (hnarrow.trans (heq.trans htop.symm))), if_pos heq.ge]
    · have hne : ¬ x.setWidth 32 = infinity 32 := fun h =>
        heq (hnarrow.symm.trans ((congrArg BitVec.toNat h).trans htop))
      rw [if_neg hne, if_neg (by omega)]
      apply BitVec.eq_of_toNat_eq
      rw [BitVec.toNat_setWidth, hnarrow]
      exact Nat.mod_eq_of_lt x.isLt

theorem le_infinity (x : BitVec Arch.bits64.bits) : x ≤ infinity Arch.bits64.bits := by
  have hlt : x.toNat < 2 ^ 64 := x.isLt
  rw [BitVec.le_def, show (infinity Arch.bits64.bits).toNat = 2 ^ 64 - 1 from rfl]
  omega

theorem compatBack_mono (h : x ≤ y) : compatBack x ≤ compatBack y := by
  have hnat := BitVec.le_def.mp h
  unfold compatBack
  by_cases hy : 2 ^ 32 - 1 ≤ y.toNat
  · rw [if_pos hy]
    exact le_infinity _
  · rw [if_neg hy, if_neg (by omega)]
    exact h

theorem le_compatBack (x : BitVec Arch.bits64.bits) : x ≤ compatBack x := by
  unfold compatBack
  split
  · exact le_infinity x
  · exact BitVec.le_refl x

theorem compatBack_ne_zero (h : x ≠ 0) : compatBack x ≠ 0 := by
  unfold compatBack
  split
  · decide
  · exact h

/-- A limit of `2 ^ 32 - 1` or more is raised, unless it is infinite, and no other. -/
theorem compatBack_le_iff :
    compatBack x ≤ x ↔ x.toNat < 2 ^ 32 - 1 ∨ x = infinity Arch.bits64.bits := by
  unfold compatBack
  by_cases hx : 2 ^ 32 - 1 ≤ x.toNat
  · rw [if_pos hx]
    constructor
    · exact fun hle => Or.inr (BitVec.le_antisymm (le_infinity x) hle)
    · rintro (hlt | rfl)
      · omega
      · exact BitVec.le_refl _
  · rw [if_neg hx]
    exact iff_of_true (BitVec.le_refl x) (Or.inl (by omega))

theorem compatBack_eq (h : compatBack x ≤ x) : compatBack x = x := by
  unfold compatBack at h ⊢
  split at h
  · next hx =>
    rw [if_pos hx]
    exact (BitVec.le_antisymm (le_infinity x) h).symm
  · next hx => rw [if_neg hx]

end Compat

/-- The limit that the compatibility call reads, of a process that is there. -/
theorem of_compatGetrlimit {s : Limits .bits64 γ} {r : Rlimit 32}
    (hread : compatGetrlimit cfg k tsk resource s = .ok r) :
    (resource < RLIM_NLIMITS ∧ tsk.sighand = true) ∧
      r = ⟨longToCompat (s.rlim tsk.signal resource).cur,
        longToCompat (s.rlim tsk.signal resource).max⟩ := by
  unfold compatGetrlimit at hread
  cases hdo : (doPrlimit cfg k tsk resource none s).1 with
  | error e =>
    rw [hdo] at hread
    cases hread
  | ok l =>
    have hplace := place_of_doPrlimit hdo
    rw [doPrlimit_read hplace] at hread
    dsimp only at hread
    split at hread
    · exact ⟨hplace, (Except.ok.inj hread).symm⟩
    · cases hread

/-- What the compatibility calls read they accept without a capability only where the soft limit
    is within the hard one, which a CPU limit of zero seconds is not, and the hard limit is below
    `2 ^ 32 - 1` or infinite; and then they raise a soft limit that is not below `2 ^ 32 - 1` to
    infinity. -/
theorem compat_write_back (cfg : LimitConfig) (k k' : LimitAnswers) (current : Thread γ)
    (resource : ℕ) (s : Limits .bits64 γ) (r : Rlimit 32) (hcopy : k'.copyFromUser = true)
    (hlsm : k'.setrlimit = none) (hcap : k'.capable = false)
    (hsound : Sound cfg resource (s.rlim current.signal resource))
    (hread : compatGetrlimit cfg k current resource s = .ok r) :
    let l := s.rlim current.signal resource
    let back := compatSetrlimit cfg k' current resource r s
    (back.1 = .ok () ↔
        l.cur ≤ l.max ∧ (l.max.toNat < 2 ^ 32 - 1 ∨ l.max = infinity Arch.bits64.bits)) ∧
      (back.1 = .ok () → back.2.rlim current.signal resource = ⟨compatBack l.cur, l.max⟩) := by
  intro l back
  obtain ⟨hplace, rfl⟩ : _ ∧ r = ⟨longToCompat l.cur, longToCompat l.max⟩ :=
    of_compatGetrlimit hread
  have hback : back = ((doPrlimit cfg k' current resource
      (some ⟨compatBack l.cur, compatBack l.max⟩) s).1.map fun _ => (),
      (doPrlimit cfg k' current resource (some ⟨compatBack l.cur, compatBack l.max⟩) s).2) := by
    simp only [back, compatSetrlimit, setrlimit, hcopy, if_true, compatToLong_longToCompat]
  have hstored : stored resource (⟨compatBack l.cur, l.max⟩ : Rlimit Arch.bits64.bits) =
      ⟨compatBack l.cur, l.max⟩ :=
    if_neg fun h => compatBack_ne_zero (hsound.cpu h.1) h.2
  rw [hback, ← compatBack_le_iff]
  by_cases hgood : l.cur ≤ l.max ∧ compatBack l.max ≤ l.max
  · obtain ⟨hle, hmax⟩ := hgood
    have hsame := compatBack_eq hmax
    have hcur : compatBack l.cur ≤ l.max := hsame ▸ compatBack_mono hle
    obtain ⟨hset, hrlim⟩ := doPrlimit_ok ⟨compatBack l.cur, l.max⟩ hlsm hplace hcur
      hsound.nofile (BitVec.le_refl _)
    rw [hsame]
    refine ⟨iff_of_true (by rw [hset]; rfl) ⟨hle, BitVec.le_refl _⟩, fun _ => ?_⟩
    rw [hrlim, hstored]
    simp [Limits.set]
  · have hfails : ∀ old, (doPrlimit cfg k' current resource
        (some ⟨compatBack l.cur, compatBack l.max⟩) s).1 ≠ .ok old := by
      intro old hset
      have hstores := stores_of_doPrlimit hset
      -- the hard limit is not raised, and the soft limit that is written is no lower than before
      have hmax : compatBack l.max ≤ l.max := by
        refine BitVec.not_lt.mp fun hrise => ?_
        have hcapable := hstores.hard hrise
        rw [hcap] at hcapable
        cases hcapable
      have hcur : compatBack l.cur ≤ compatBack l.max := hstores.cur_le
      rw [compatBack_eq hmax] at hcur
      exact hgood ⟨BitVec.le_trans (le_compatBack l.cur) hcur, hmax⟩
    cases hset : (doPrlimit cfg k' current resource
        (some ⟨compatBack l.cur, compatBack l.max⟩) s).1 with
    | ok old => exact absurd hset (hfails old)
    | error e => exact ⟨iff_of_false (fun h => by cases h) hgood, fun h => by cases h⟩

/-- A process whose files may have eight gigabytes. -/
def bigFiles : Limits .bits64 Unit where
  rlim _ _ := ⟨0x200000000, 0x200000000⟩
  cpuTimers := []

theorem compat_write_back_big_files :
    compatGetrlimit bootConfig limitGranted oneThread 1 bigFiles =
        .ok ⟨infinity 32, infinity 32⟩ ∧
      (compatSetrlimit bootConfig limitGranted oneThread 1 ⟨infinity 32, infinity 32⟩
        bigFiles).1 ≠ .ok () := by
  have hread : compatGetrlimit bootConfig limitGranted oneThread 1 bigFiles =
      .ok ⟨infinity 32, infinity 32⟩ := by decide
  have hsound : Sound bootConfig 1 (bigFiles.rlim () 1) :=
    ⟨Or.inl (BitVec.le_refl _), by decide, by decide⟩
  have h := (compat_write_back bootConfig limitGranted limitGranted oneThread 1 bigFiles _ rfl rfl
    rfl hsound hread).1
  refine ⟨hread, fun hok => ?_⟩
  rcases (h.mp hok).2 with hlt | heq
  · exact absurd hlt (by decide)
  · exact absurd heq (by decide)

end Apes.Kernel
