import Mathlib.Algebra.BigOperators.Group.List.Lemmas
import Mathlib.Algebra.GroupWithZero.Nat
import Mathlib.Data.List.Dedup
import Mathlib.Order.Lattice

/-!
# Counting the entries of a sorted list

`groups` takes the first entry, counts it in the whole rest of the list and goes on behind
as many entries as it has counted. On a sorted list this lists every entry once, with the
number of its occurrences.
-/

namespace Apes

def groups {α : Type*} [BEq α] [LawfulBEq α] : List α → List (α × ℕ)
  | [] => []
  | x :: l => (x, (x :: l).count x) :: groups ((x :: l).drop ((x :: l).count x))
termination_by l => l.length
decreasing_by
  simp only [List.count_cons_self, List.drop_succ_cons, List.length_drop, List.length_cons]
  omega

@[simp] theorem groups_nil {α : Type*} [BEq α] [LawfulBEq α] : groups ([] : List α) = [] := by
  rw [groups]

theorem groups_cons {α : Type*} [BEq α] [LawfulBEq α] (x : α) (l : List α) :
    groups (x :: l) = (x, (x :: l).count x) :: groups ((x :: l).drop ((x :: l).count x)) := by
  rw [groups]

variable {α : Type*} [LinearOrder α] [BEq α] {l l' : List α} {g : List (α × ℕ)}

/-- Every entry of `l` once, in ascending order, with the number of its occurrences. -/
structure Census (l : List α) (g : List (α × ℕ)) : Prop where
  ordered : (g.map Prod.fst).Pairwise (· < ·)
  mem_iff : ∀ x, x ∈ g.map Prod.fst ↔ x ∈ l
  count_eq : ∀ e ∈ g, e.2 = l.count e.1

namespace Census

theorem nodup (h : Census l g) : (g.map Prod.fst).Nodup := h.ordered.imp ne_of_lt

theorem of_perm (h : Census l g) (hp : l.Perm l') : Census l' g where
  ordered := h.ordered
  mem_iff x := (h.mem_iff x).trans hp.mem_iff
  count_eq e he := (h.count_eq e he).trans (hp.count_eq e.1)

theorem perm_of_nodup (h : Census l g) (hnd : l'.Nodup) (hmem : ∀ x, x ∈ l' ↔ x ∈ l) :
    (g.map Prod.fst).Perm l' :=
  (List.perm_ext_iff_of_nodup h.nodup hnd).mpr fun x => by rw [h.mem_iff, hmem]

variable [LawfulBEq α]

/-- The numbers add up to the length of the list. -/
theorem sum_eq_length (h : Census l g) : (g.map Prod.snd).sum = l.length := by
  have hcounts : g.map Prod.snd = (g.map Prod.fst).map fun x => l.count x := by
    rw [List.map_map]
    exact List.map_congr_left h.count_eq
  have hperm := h.perm_of_nodup l.nodup_dedup fun x => List.mem_dedup
  obtain rfl : ‹BEq α› = instBEqOfDecidableEq := lawful_beq_subsingleton _ _
  calc
    (g.map Prod.snd).sum = ((g.map Prod.fst).map fun x => l.count x).sum := by rw [hcounts]
    _ = (l.dedup.map fun x => l.count x).sum := (hperm.map _).sum_eq
    _ = l.length := List.sum_map_count_dedup_eq_length l

end Census

variable [LawfulBEq α]

/-- In a sorted list the entries equal to a lower bound are all in front. -/
theorem take_count_of_sorted {x : α} (hl : l.Pairwise (· ≤ ·)) (hx : ∀ y ∈ l, x ≤ y) :
    l.take (l.count x) = List.replicate (l.count x) x ∧ ∀ y ∈ l.drop (l.count x), x < y := by
  induction l with
  | nil => simp
  | cons y l ih =>
    obtain ⟨hy, hl⟩ := List.pairwise_cons.mp hl
    by_cases hyx : y = x
    · subst hyx
      obtain ⟨htake, hdrop⟩ := ih hl fun z hz => hx z (List.mem_cons_of_mem _ hz)
      rw [List.count_cons_self]
      exact ⟨by rw [List.take_succ_cons, htake, List.replicate_succ], hdrop⟩
    · have hlt : ∀ z ∈ y :: l, x < z := by
        have hxy : x < y := lt_of_le_of_ne (hx y List.mem_cons_self) (Ne.symm hyx)
        intro z hz
        rcases List.mem_cons.mp hz with rfl | hz
        · exact hxy
        · exact hxy.trans_le (hy z hz)
      have hcount : (y :: l).count x = 0 :=
        List.count_eq_zero.mpr fun hmem => (hlt x hmem).false
      rw [hcount]
      exact ⟨rfl, hlt⟩

theorem groups_census (hl : l.Pairwise (· ≤ ·)) : Census l (groups l) := by
  induction l using groups.induct with
  | case1 => exact ⟨by simp, by simp, by simp⟩
  | case2 x l ih =>
    have hx : ∀ y ∈ x :: l, x ≤ y := by
      intro y hy
      rcases List.mem_cons.mp hy with rfl | hy
      · exact le_rfl
      · exact (List.pairwise_cons.mp hl).1 y hy
    obtain ⟨htake, hdrop⟩ := take_count_of_sorted hl hx
    have hrest := ih (hl.sublist (List.drop_sublist _ _))
    rw [groups_cons]
    generalize hc : (x :: l).count x = c at htake hdrop hrest ⊢
    have hpos : 0 < c := hc ▸ List.count_pos_iff.mpr List.mem_cons_self
    have hsplit : x :: l = List.replicate c x ++ (x :: l).drop c := by
      rw [← htake, List.take_append_drop]
    refine ⟨List.pairwise_cons.mpr ⟨fun y hy => ?_, hrest.ordered⟩, fun y => ?_, fun e he => ?_⟩
    · exact hdrop y ((hrest.mem_iff y).mp hy)
    · rw [List.map_cons, List.mem_cons, hrest.mem_iff]
      conv_rhs => rw [hsplit, List.mem_append, List.mem_replicate]
      simp [hpos.ne']
    · rcases List.mem_cons.mp he with rfl | he
      · exact hc.symm
      · have hlt : x < e.1 := hdrop _ ((hrest.mem_iff _).mp (List.mem_map_of_mem he))
        rw [hrest.count_eq e he]
        conv_rhs => rw [hsplit, List.count_append, List.count_replicate, if_neg (by simp [hlt.ne])]
        rw [Nat.zero_add]

end Apes
