import Apes.Lib.CopyUp
import Mathlib.Data.Set.Lattice
import Mathlib.Order.CompletePartialOrder

/-!
# `memory.c`

An own `memcpy`, whose source comes first. It copies byte by byte and upwards, so that the
regions may overlap as long as the destination does not lie above the source.
-/

namespace Apes.Memory

open Apes

variable {w : ℕ}

/-- A memory with addresses of `w` bits; `size_t` has `w` bits as well. -/
abbrev Bytes (w : ℕ) : Type := BitVec w → UInt8

theorem toNat_add_one {i length : BitVec w} (h : i < length) : (i + 1).toNat = i.toNat + 1 := by
  have hlt := BitVec.lt_def.mp h
  have hmax := length.isLt
  have hone : (1 : BitVec w).toNat = 1 % 2 ^ w := BitVec.toNat_ofNat 1 w
  rw [BitVec.toNat_add, hone, Nat.add_mod_mod, Nat.mod_eq_of_lt (by omega)]

/-- `for(;i<length;i++) *(dst_cpy + i) = *(src_cpy + i)` -/
def copyLoop (src dst length i : BitVec w) (m : Bytes w) : Bytes w :=
  if _hi : i < length then
    copyLoop src dst length (i + 1) (Function.update m (dst + i) (m (src + i)))
  else m
termination_by length.toNat - i.toNat
decreasing_by
  have hlt := BitVec.lt_def.mp _hi
  rw [toNat_add_one _hi]
  omega

/-- `memcpy(src, dst, length)` -/
def memcpy (src dst length : BitVec w) (m : Bytes w) : Bytes w := copyLoop src dst length 0 m

/-- The address of the element `k` of an array of bytes. -/
def address (p : BitVec w) (k : ℕ) : BitVec w := p + BitVec.ofNat w k

/-- The addresses of `length` bytes from `p` on. -/
def region (p length : BitVec w) : Set (BitVec w) :=
  {x | p.toNat ≤ x.toNat ∧ x.toNat < p.toNat + length.toNat}

/-- The region ends within the memory. -/
def NoWrap (p length : BitVec w) : Prop := p.toNat + length.toNat ≤ 2 ^ w

instance (p length : BitVec w) : Decidable (NoWrap p length) := inferInstanceAs (Decidable (_ ≤ _))

theorem copyLoop_eq (src dst length : BitVec w) (m : Bytes w) {k : ℕ} (hk : k ≤ length.toNat) :
    copyLoop src dst length (BitVec.ofNat w k) (copyUp (address dst) (address src) k m) =
      copyUp (address dst) (address src) length.toNat m := by
  induction hk using Nat.decreasingInduction with
  | self =>
    rw [copyLoop, dif_neg]
    simp
  | of_succ k hk ih =>
    have hmod : k % 2 ^ w = k := Nat.mod_eq_of_lt (hk.trans length.isLt)
    have hlt : BitVec.ofNat w k < length := by simpa [BitVec.lt_def, hmod] using hk
    have hnext : BitVec.ofNat w k + 1 = BitVec.ofNat w (k + 1) := (BitVec.ofNat_add k 1).symm
    rw [copyLoop, dif_pos hlt, hnext]
    exact ih

/-- The loop copies upwards. -/
theorem memcpy_eq (src dst length : BitVec w) (m : Bytes w) :
    memcpy src dst length m = copyUp (address dst) (address src) length.toNat m :=
  copyLoop_eq src dst length m (Nat.zero_le _)

theorem address_toNat {p length : BitVec w} (hp : NoWrap p length) {k : ℕ}
    (hk : k < length.toNat) : (address p k).toNat = p.toNat + k := by
  have hsum : p.toNat + length.toNat ≤ 2 ^ w := hp
  rw [address, BitVec.toNat_add, BitVec.toNat_ofNat, Nat.mod_eq_of_lt (show k < 2 ^ w by omega),
    Nat.mod_eq_of_lt (by omega)]

theorem mem_region_iff {p length : BitVec w} (hp : NoWrap p length) {x : BitVec w} :
    x ∈ region p length ↔ ∃ k < length.toNat, x = address p k := by
  constructor
  · rintro ⟨hle, hlt⟩
    have hk : x.toNat - p.toNat < length.toNat := by omega
    refine ⟨x.toNat - p.toNat, hk, ?_⟩
    apply BitVec.eq_of_toNat_eq
    rw [address_toNat hp hk]
    omega
  · rintro ⟨k, hk, rfl⟩
    rw [region, Set.mem_ofPred_eq, address_toNat hp hk]
    omega

theorem injOn_address {p length : BitVec w} (hp : NoWrap p length) :
    Set.InjOn (address p) {k | k < length.toNat} := by
  intro j hj k hk heq
  have hnat := congrArg BitVec.toNat heq
  rw [address_toNat hp hj, address_toNat hp hk] at hnat
  omega

/-- In disjoint regions, and in a destination that starts at or below the source, no byte is
    read after it has been written. -/
theorem readsBefore_of_disjoint_or_le {src dst length : BitVec w} (hs : NoWrap src length)
    (hd : NoWrap dst length)
    (h : Disjoint (region src length) (region dst length) ∨ dst ≤ src) :
    ReadsBefore (address dst) (address src) length.toNat := by
  intro j k hjk hk heq
  rcases h with hdisjoint | hle
  · apply Set.disjoint_left.mp hdisjoint
    · exact (mem_region_iff hs).mpr ⟨k, hk, rfl⟩
    · exact (mem_region_iff hd).mpr ⟨j, hjk.trans hk, heq⟩
  · have hle' := BitVec.le_def.mp hle
    have hnat := congrArg BitVec.toNat heq
    rw [address_toNat hs hk, address_toNat hd (hjk.trans hk)] at hnat
    omega

/-- In disjoint regions, and in a destination that starts at or below the source, `memcpy`
    copies the bytes of the source and changes nothing else. -/
theorem memcpy_copies (m : Bytes w) (src dst length : BitVec w) (hs : NoWrap src length)
    (hd : NoWrap dst length)
    (h : Disjoint (region src length) (region dst length) ∨ dst ≤ src) :
    (∀ k < length.toNat, memcpy src dst length m (address dst k) = m (address src k)) ∧
      ∀ x ∉ region dst length, memcpy src dst length m x = m x := by
  have hreads := readsBefore_of_disjoint_or_le hs hd h
  rw [memcpy_eq]
  constructor
  · intro k hk
    exact copyUp_apply (injOn_address hd) hreads hk
  · intro x hx
    apply copyUp_of_forall_ne
    intro k hk heq
    exact hx ((mem_region_iff hd).mpr ⟨k, hk, heq⟩)

/-- Four bytes, copied by two bytes downwards. -/
theorem memcpy_copies_overlapping :
    let m : Bytes 32 := fun x => UInt8.ofNat x.toNat
    (∀ k < 4, memcpy 102 100 4 m (address 100 k) = m (address 102 k)) ∧
      ∀ x ∉ region (100 : BitVec 32) 4, memcpy 102 100 4 m x = m x :=
  memcpy_copies (fun x => UInt8.ofNat x.toNat) (102 : BitVec 32) 100 4 (by decide) (by decide)
    (Or.inr (by decide))

end Apes.Memory
