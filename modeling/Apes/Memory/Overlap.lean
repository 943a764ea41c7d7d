import Apes.Memory.Memcpy

/-!
# A destination above the source

Where the destination starts inside the source, the copy reads bytes that it has written:
the bytes between the two starts are repeated. So it is a copy only of a source that repeats
them itself.
-/

namespace Apes.Memory

open Apes

variable {w : ℕ} {m : Bytes w} {src dst length : BitVec w}

/-- How far the destination lies above the source. -/
def distance (src dst : BitVec w) : ℕ := dst.toNat - src.toNat

theorem address_distance (hd : NoWrap dst length) (hlt : src < dst) {k : ℕ}
    (hk : k < length.toNat) : address dst k = address src (k + distance src dst) := by
  have hnat := BitVec.lt_def.mp hlt
  have hmax := dst.isLt
  have hsum : dst.toNat + length.toNat ≤ 2 ^ w := hd
  apply BitVec.eq_of_toNat_eq
  rw [address_toNat hd hk, address, BitVec.toNat_add, BitVec.toNat_ofNat, distance,
    Nat.mod_eq_of_lt (show k + (dst.toNat - src.toNat) < 2 ^ w by omega),
    Nat.mod_eq_of_lt (by omega)]
  omega

theorem injOn_address_distance (hd : NoWrap dst length) (hlt : src < dst) :
    Set.InjOn (address src) {k | k < length.toNat + distance src dst} := by
  have hnat := BitVec.lt_def.mp hlt
  have hsum : dst.toNat + length.toNat ≤ 2 ^ w := hd
  have hval : ∀ k < length.toNat + distance src dst, (address src k).toNat = src.toNat + k := by
    intro k hk
    unfold distance at hk
    rw [address, BitVec.toNat_add, BitVec.toNat_ofNat, Nat.mod_eq_of_lt (show k < 2 ^ w by omega),
      Nat.mod_eq_of_lt (by omega)]
  intro j hj k hk heq
  have hsame := congrArg BitVec.toNat heq
  rw [hval j hj, hval k hk] at hsame
  omega

/-- Every byte of the destination, wherever it lies above the source. -/
theorem memcpy_above (m : Bytes w) (hd : NoWrap dst length) (hlt : src < dst) {k : ℕ}
    (hk : k < length.toNat) :
    memcpy src dst length m (address dst k) = m (address src (k % distance src dst)) := by
  have hpos : 0 < distance src dst := Nat.sub_pos_of_lt (BitVec.lt_def.mp hlt)
  rw [memcpy_eq]
  exact copyUp_shift hpos (injOn_address_distance hd hlt)
    (fun j hj => address_distance hd hlt hj) hk

/-- A source whose every byte is the one `distance` before it. -/
def Repeats (m : Bytes w) (src dst length : BitVec w) : Prop :=
  ∀ k, k + distance src dst < length.toNat →
    m (address src (k + distance src dst)) = m (address src k)

theorem Repeats.mod (h : Repeats m src dst length) {k : ℕ} (hk : k < length.toNat) :
    m (address src (k % distance src dst)) = m (address src k) := by
  induction k using Nat.strong_induction_on with
  | _ k ih =>
    by_cases hkd : k < distance src dst
    · rw [Nat.mod_eq_of_lt hkd]
    · obtain hzero | hpos := Nat.eq_zero_or_pos (distance src dst)
      · rw [hzero, Nat.mod_zero]
      · obtain ⟨j, rfl⟩ : ∃ j, k = j + distance src dst := ⟨k - distance src dst, by omega⟩
        rw [Nat.add_mod_right, ih j (by omega) (by omega), h j hk]

/-- Into a destination above the source `memcpy` writes the bytes between the two starts again
    and again, and it is a copy of the source exactly where the source repeats them. -/
theorem memcpy_overlap (m : Bytes w) (src dst length : BitVec w) (hd : NoWrap dst length)
    (hlt : src < dst) :
    (∀ k < length.toNat,
      memcpy src dst length m (address dst k) = m (address src (k % distance src dst))) ∧
    (∀ x ∉ region dst length, memcpy src dst length m x = m x) ∧
    ((∀ k < length.toNat, memcpy src dst length m (address dst k) = m (address src k)) ↔
      Repeats m src dst length) := by
  refine ⟨fun k hk => memcpy_above m hd hlt hk, fun x hx => ?_, fun hcopy k hk => ?_,
    fun hrep k hk => ?_⟩
  · rw [memcpy_eq]
    apply copyUp_of_forall_ne
    intro k hk heq
    exact hx ((mem_region_iff hd).mpr ⟨k, hk, heq⟩)
  · have hbefore := hcopy k (by omega)
    rw [memcpy_above m hd hlt (by omega)] at hbefore
    rw [← hcopy _ hk, memcpy_above m hd hlt hk, Nat.add_mod_right, hbefore]
  · rw [memcpy_above m hd hlt hk, hrep.mod hk]

/-- Five bytes, copied by two bytes upwards. -/
theorem memcpy_overlap_five :
    let m : Bytes 32 := fun x => UInt8.ofNat x.toNat
    ∀ k < 5, memcpy 100 102 5 m (address 102 k) = m (address 100 (k % 2)) :=
  (memcpy_overlap (fun x => UInt8.ofNat x.toNat) (100 : BitVec 32) 102 5 (by decide)
    (by decide)).1

end Apes.Memory
