import Apes.Ipc.Pipes

/-!
# What a pipe of `pipes.c` carries

After the first write a pipe starts with the whole table, record by record; what
the later writes append is behind it. A reader that reads no more often than the
table has records never gets there.
-/

namespace Apes.Pipes

open Apes

variable {n : ℕ} {t : ℕ → Record} {past : ℕ → UInt8} {p : Pipe} {w r i : ℕ}

/-- The records `k, …, k+m-1` of a table in memory. -/
def encode (t : ℕ → Record) (k m : ℕ) : List UInt8 :=
  (List.range' k m).flatMap fun j => (t j).bytes

theorem encode_succ (t : ℕ → Record) (k m : ℕ) :
    encode t k (m + 1) = (t k).bytes ++ encode t (k + 1) m := rfl

theorem encode_length (t : ℕ → Record) (k m : ℕ) : (encode t k m).length = recordSize * m := by
  induction m generalizing k with
  | zero => rfl
  | succ m ih => rw [encode_succ, List.length_append, ih, Record.bytes_length, Nat.mul_succ,
      Nat.add_comm]

/-- Inside the table the bytes from one record to the next are the record. -/
theorem slice_record (hi : i < n) :
    slice (tableByte n t past) (recordSize * i) recordSize = (t i).bytes := by
  apply List.ext_getElem (by simp)
  intro k hk hk'
  rw [Record.bytes_length] at hk'
  rw [slice_getElem]
  have hlt : recordSize * i + k < recordSize * n := by
    unfold recordSize at *
    omega
  have hdiv : (recordSize * i + k) / recordSize = i := by
    unfold recordSize at *
    omega
  have hmod : (recordSize * i + k) % recordSize = k := by
    unfold recordSize at *
    omega
  rw [tableByte, if_pos hlt, hdiv, hmod]
  exact (List.getElem_eq_getD 0).symm

theorem slice_table (m : ℕ) (hm : i + m ≤ n) :
    slice (tableByte n t past) (recordSize * i) (recordSize * m) = encode t i m := by
  induction m generalizing i with
  | zero => rfl
  | succ m ih =>
    have hsplit : recordSize * (m + 1) = recordSize + recordSize * m := by
      rw [Nat.mul_succ, Nat.add_comm]
    have hnext : recordSize * i + recordSize = recordSize * (i + 1) := (Nat.mul_succ _ _).symm
    rw [hsplit, slice_add, hnext, slice_record (by omega), ih (by omega), encode_succ]

/-- A pipe over which `w` writes and `r` reads have gone. -/
structure Carries (n : ℕ) (t : ℕ → Record) (w r : ℕ) (p : Pipe) : Prop where
  -- the rest of the first copy of the table is in front
  front : 0 < w → ∃ tail, p.bytes = encode t r (n - r) ++ tail
  length : p.bytes.length + recordSize * r = recordSize * n * w
  sources : ∀ o ∈ p.sources, ∃ j < w, recordSize * j ≤ o ∧ o < recordSize * j + recordSize * n

namespace Carries

theorem empty (n : ℕ) (t : ℕ → Record) : Carries n t 0 0 ⟨[], [], true, true⟩ where
  front h := absurd h (by decide)
  length := by simp
  sources := by simp

/-- Before the first write there is nothing to read. -/
theorem of_zero (h : Carries n t 0 r p) : p.bytes = [] ∧ r = 0 := by
  have hlen := h.length
  rw [Nat.mul_zero] at hlen
  unfold recordSize at hlen
  exact ⟨List.eq_nil_of_length_eq_zero (by omega), by omega⟩

theorem write (h : Carries n t w r p) (past : ℕ → UInt8) :
    Carries n t (w + 1) r (p.write n t past w) where
  front _ := by
    rcases Nat.eq_zero_or_pos w with rfl | hw
    · -- the first write copies the table from its start
      obtain ⟨hnil, rfl⟩ := h.of_zero
      refine ⟨[], ?_⟩
      show p.bytes ++ _ = _
      rw [hnil, slice_table n (by omega)]
      simp
    · obtain ⟨tail, htail⟩ := h.front hw
      refine ⟨tail ++ slice (tableByte n t past) (recordSize * w) (recordSize * n), ?_⟩
      show p.bytes ++ _ = _
      rw [htail, List.append_assoc]
  length := by
    have hlen := h.length
    simp only [Pipe.write, List.length_append, slice_length]
    rw [Nat.mul_succ, ← hlen]
    omega
  sources o ho := by
    rcases List.mem_append.mp ho with ho | ho
    · obtain ⟨j, hj, hsrc⟩ := h.sources o ho
      exact ⟨j, hj.trans (Nat.lt_succ_self w), hsrc⟩
    · obtain ⟨h1, h2⟩ := List.mem_range'_1.mp ho
      exact ⟨w, Nat.lt_succ_self w, h1, h2⟩

/-- The bytes of a pipe that is not empty start with the next record. -/
theorem exists_bytes_eq (h : Carries n t w r p) (hne : p.bytes ≠ []) (hr : r < n) :
    0 < w ∧ ∃ tail, p.bytes = (t r).bytes ++ (encode t (r + 1) (n - (r + 1)) ++ tail) := by
  have hw : 0 < w := by
    rcases Nat.eq_zero_or_pos w with rfl | hw
    · exact absurd h.of_zero.1 hne
    · exact hw
  obtain ⟨tail, htail⟩ := h.front hw
  refine ⟨hw, tail, ?_⟩
  rw [htail, show n - r = n - (r + 1) + 1 by omega, encode_succ, List.append_assoc]

theorem peek_eq (h : Carries n t w r p) (hne : p.bytes ≠ []) (hr : r < n) :
    p.peek = (t r).bytes := by
  obtain ⟨-, tail, htail⟩ := h.exists_bytes_eq hne hr
  rw [Pipe.peek, htail, List.take_left' (Record.bytes_length _)]

theorem read (h : Carries n t w r p) (hne : p.bytes ≠ []) (hr : r < n) :
    Carries n t w (r + 1) p.read := by
  obtain ⟨-, tail, htail⟩ := h.exists_bytes_eq hne hr
  have hdrop : p.read.bytes = encode t (r + 1) (n - (r + 1)) ++ tail := by
    rw [Pipe.read, htail, List.drop_left' (Record.bytes_length _)]
  refine ⟨fun _ => ⟨tail, hdrop⟩, ?_, h.sources⟩
  have hlen := h.length
  rw [htail, List.length_append, Record.bytes_length] at hlen
  rw [hdrop, Nat.mul_succ]
  omega

/-- Each write makes `n` records available. -/
theorem count_eq_of_nil (h : Carries n t w r p) (hnil : p.bytes = []) : r = n * w := by
  have hlen := h.length
  rw [hnil, List.length_nil, Nat.zero_add, Nat.mul_assoc] at hlen
  exact Nat.eq_of_mul_eq_mul_left (by decide) hlen

end Carries

end Apes.Pipes
