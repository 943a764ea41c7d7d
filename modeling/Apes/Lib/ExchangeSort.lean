import Mathlib.Data.List.FinRange
import Mathlib.Order.Defs.LinearOrder

/-!
# Exchange sort

For `i = 0, 1, …` and every `j > i` in ascending order, the entries `i` and `j` are
exchanged where they are out of order. One pass puts the least of the entries from `i` on
at `i`; all passes sort the vector.
-/

namespace Apes.ExchangeSort

variable {α : Type*} [LinearOrder α] {n : ℕ}

/-- The indices `k, …, n - 1`. -/
def upFrom (n k : ℕ) : List (Fin n) := (List.finRange n).drop k

def exchange (i : Fin n) (v : Vector α n) (j : Fin n) : Vector α n :=
  if v[j] < v[i] then v.swap i j else v

/-- `for(j=i+1;j<n;j++)` -/
def pass (v : Vector α n) (i : Fin n) : Vector α n := (upFrom n (i + 1)).foldl (exchange i) v

/-- `for(i=0;i<n;i++)` -/
def sort (v : Vector α n) : Vector α n := (upFrom n 0).foldl pass v

theorem upFrom_eq_cons {k : ℕ} (hk : k < n) : upFrom n k = ⟨k, hk⟩ :: upFrom n (k + 1) := by
  rw [upFrom, List.drop_eq_getElem_cons (by simpa using hk)]
  simp [upFrom]

theorem upFrom_eq_nil {k : ℕ} (hk : n ≤ k) : upFrom n k = [] := by
  rw [upFrom, List.drop_eq_nil_iff, List.length_finRange]
  exact hk

theorem mem_upFrom {k : ℕ} {j : Fin n} : j ∈ upFrom n k ↔ k ≤ j := by
  rw [upFrom, List.mem_drop_iff_getElem]
  constructor
  · rintro ⟨a, ha, rfl⟩
    simp
  · intro h
    refine ⟨j - k, ?_, ?_⟩
    · rw [List.length_finRange]
      omega
    · ext
      simp [Nat.add_sub_cancel' h]

theorem nodup_upFrom (n k : ℕ) : (upFrom n k).Nodup :=
  (List.nodup_finRange n).sublist (List.drop_sublist k _)

/-! ## One exchange -/

variable {v : Vector α n} {i j : Fin n}

theorem exchange_perm (i : Fin n) (v : Vector α n) (j : Fin n) : (exchange i v j).Perm v := by
  unfold exchange
  split
  · exact Vector.swap_perm i.2 j.2
  · exact .refl v

/-- After the exchange the two entries are in order. -/
theorem exchange_le (i : Fin n) (v : Vector α n) (j : Fin n) :
    (exchange i v j)[i] ≤ (exchange i v j)[j] ∧ (exchange i v j)[i] ≤ v[i] := by
  unfold exchange
  split
  · next h =>
    have hle : v[j] ≤ v[i] := le_of_lt h
    simpa using hle
  · next h => exact ⟨not_lt.mp h, le_rfl⟩

theorem exchange_getElem_of_ne {k : Fin n} (hi : k ≠ i) (hj : k ≠ j) :
    (exchange i v j)[k] = v[k] := by
  unfold exchange
  split
  · exact Vector.getElem_swap_of_ne (Fin.val_ne_of_ne hi) (Fin.val_ne_of_ne hj)
  · rfl

/-- Every entry is an old one, of the two positions if it is one of them. -/
theorem exchange_getElem_cases (i : Fin n) (v : Vector α n) (j k : Fin n) :
    (exchange i v j)[k] = v[k] ∨ k = i ∧ (exchange i v j)[k] = v[j] ∨
      k = j ∧ (exchange i v j)[k] = v[i] := by
  by_cases hlt : v[j] < v[i]
  · rw [exchange, if_pos hlt]
    by_cases hi : k = i
    · exact Or.inr (Or.inl ⟨hi, by simp [hi]⟩)
    · by_cases hj : k = j
      · exact Or.inr (Or.inr ⟨hj, by simp [hj]⟩)
      · exact Or.inl (Vector.getElem_swap_of_ne (Fin.val_ne_of_ne hi) (Fin.val_ne_of_ne hj))
  · rw [exchange, if_neg hlt]
    exact Or.inl rfl

/-! ## One pass -/

/-- What exchanging the entry `i` with the entries `js` does. -/
structure Passed (i : Fin n) (js : List (Fin n)) (v w : Vector α n) : Prop where
  perm : w.Perm v
  outside : ∀ k, k ≠ i → k ∉ js → w[k] = v[k]
  le : w[i] ≤ v[i]
  least : ∀ j ∈ js, w[i] ≤ w[j]
  old : ∀ k ∈ i :: js, ∃ k' ∈ i :: js, w[k] = v[k']

theorem passed_foldl (i : Fin n) (js : List (Fin n)) (hi : i ∉ js) (hnd : js.Nodup)
    (v : Vector α n) : Passed i js v (js.foldl (exchange i) v) := by
  induction js generalizing v with
  | nil => exact ⟨.refl v, fun _ _ _ => rfl, le_rfl, by simp, fun k hk => ⟨k, hk, rfl⟩⟩
  | cons j js ih =>
    rw [List.mem_cons, not_or] at hi
    obtain ⟨hij, hijs⟩ := hi
    obtain ⟨hj, hjs⟩ := List.nodup_cons.mp hnd
    have h := ih hijs hjs (exchange i v j)
    obtain ⟨hle, hle'⟩ := exchange_le i v j
    have hkeep := h.outside j (Ne.symm hij) hj
    simp only [List.foldl_cons]
    refine ⟨h.perm.trans (exchange_perm i v j), fun k hk hkjs => ?_, h.le.trans hle', ?_, ?_⟩
    · rw [List.mem_cons, not_or] at hkjs
      obtain ⟨hkj, hkjs⟩ := hkjs
      rw [h.outside k hk hkjs, exchange_getElem_of_ne hk hkj]
    · intro k hk
      rcases List.mem_cons.mp hk with rfl | hk
      · rw [hkeep]
        exact h.le.trans hle
      · exact h.least k hk
    · intro k hk
      -- the entry is an old one of `exchange i v j`, at a position of the pass
      have hmid : ∃ k' ∈ i :: j :: js, (js.foldl (exchange i) (exchange i v j))[k] =
          (exchange i v j)[k'] := by
        by_cases hkj : k = j
        · exact ⟨k, hk, by rw [hkj, hkeep]⟩
        · have hk' : k ∈ i :: js := by
            simp only [List.mem_cons] at hk ⊢
            tauto
          obtain ⟨k', hk', heq⟩ := h.old k hk'
          refine ⟨k', ?_, heq⟩
          simp only [List.mem_cons] at hk' ⊢
          tauto
      obtain ⟨k', hk', heq⟩ := hmid
      rcases exchange_getElem_cases i v j k' with h' | ⟨-, h'⟩ | ⟨-, h'⟩
      · exact ⟨k', hk', heq.trans h'⟩
      · exact ⟨j, by simp, heq.trans h'⟩
      · exact ⟨i, by simp, heq.trans h'⟩

theorem passed_pass (v : Vector α n) (i : Fin n) : Passed i (upFrom n (i + 1)) v (pass v i) := by
  refine passed_foldl i _ ?_ (nodup_upFrom n _) v
  rw [mem_upFrom]
  omega

/-! ## All passes -/

/-- The entries before `k` are in their places. -/
def SortedBelow (k : ℕ) (v : Vector α n) : Prop :=
  ∀ a b : Fin n, (a : ℕ) < k → a < b → v[a] ≤ v[b]

theorem SortedBelow.pass {k : ℕ} (hk : k < n) (h : SortedBelow k v) :
    SortedBelow (k + 1) (pass v ⟨k, hk⟩) := by
  have hp := passed_pass v ⟨k, hk⟩
  -- what is before `k` is not touched
  have hkeep : ∀ c : Fin n, (c : ℕ) < k → (ExchangeSort.pass v ⟨k, hk⟩)[c] = v[c] := by
    intro c hc
    refine hp.outside c (Fin.ne_of_val_ne hc.ne) ?_
    rw [mem_upFrom]
    exact fun h => absurd h (by simp only; omega)
  intro a b ha hab
  by_cases hak : (a : ℕ) < k
  · rw [hkeep a hak]
    by_cases hbk : (b : ℕ) < k
    · rw [hkeep b hbk]
      exact h a b hak hab
    · have hb : b ∈ (⟨k, hk⟩ : Fin n) :: upFrom n (k + 1) := by
        rw [← upFrom_eq_cons hk, mem_upFrom]
        omega
      obtain ⟨b', hb', heq⟩ := hp.old b hb
      rw [← upFrom_eq_cons hk, mem_upFrom] at hb'
      rw [heq]
      exact h a b' hak (Fin.lt_def.mpr (by omega))
  · obtain rfl : a = ⟨k, hk⟩ := Fin.ext (by simp only; omega)
    exact hp.least b (by rw [mem_upFrom]; exact hab)

theorem foldl_pass_perm (is : List (Fin n)) (v : Vector α n) : (is.foldl pass v).Perm v := by
  induction is generalizing v with
  | nil => exact .refl v
  | cons i is ih => exact (ih (pass v i)).trans (passed_pass v i).perm

theorem foldl_pass_sorted {k : ℕ} (hk : k ≤ n) (h : SortedBelow k v) :
    SortedBelow n ((upFrom n k).foldl pass v) := by
  induction hk using Nat.decreasingInduction generalizing v with
  | self =>
    rwa [upFrom_eq_nil le_rfl]
  | of_succ k hk ih =>
    rw [upFrom_eq_cons hk, List.foldl_cons]
    exact ih (h.pass hk)

theorem sort_perm (v : Vector α n) : (sort v).Perm v := foldl_pass_perm _ v

theorem sort_sorted (v : Vector α n) : (sort v).toList.Pairwise (· ≤ ·) := by
  have h : SortedBelow n (sort v) :=
    foldl_pass_sorted (Nat.zero_le n) fun a _ ha _ => absurd ha (Nat.not_lt_zero a)
  rw [List.pairwise_iff_getElem]
  intro a b ha hb hab
  simp only [Vector.length_toList] at ha hb
  simpa using h ⟨a, ha⟩ ⟨b, hb⟩ ha hab

end Apes.ExchangeSort
