import Apes.Ipc.PipesDelivery

/-!
# What the long writes of `pipes.c` cost

A write passes the size of the table where the size of a record was meant. From
the second record on the reader is therefore served from copies that were made in
round 0: an acknowledgement can be read before the peer has written it, and the
pipes hold more than the records that have been sent.
-/

namespace Apes.Pipes

open Apes Handler

variable {T : Tables} {s : State}

/-! ## Causality -/

/-- Neither handler has read a record that the other one has not written yet. -/
def Causal (s : State) : Prop :=
  s.thread2.got.length ≤ s.thread1.sent ∧ s.thread1.got.length ≤ s.thread2.sent

/-- `thread2_handler` goes through its first round and reads again, while
    `thread1_handler` is still in its first. -/
def earlyRun : List Action :=
  [.head1, .write1 fun _ => 0, .head2, .call2, .read2 true, .log2, .write2 fun _ => 0, .count2,
    .head2, .call2, .read2 true]

theorem exists_early_read (hn : 2 ≤ T.n) :
    ∃ s, (quiet T).Reachable s ∧ s.thread1.sent = 1 ∧ s.thread2.got.length = 2 := by
  obtain ⟨n, t1, t2⟩ := T
  obtain ⟨m, rfl⟩ : ∃ m, n = m + 2 := ⟨n - 2, (Nat.sub_add_cancel hn).symm⟩
  have hinit : (quiet ⟨m + 2, t1, t2⟩).Reachable
      (start (List.replicate recordSize 0) (List.replicate recordSize 0)) :=
    .init ⟨_, _, List.length_replicate, List.length_replicate, rfl⟩
  exact ⟨_, hinit.run (Program.run_of_exec _ earlyRun _ rfl), rfl, rfl⟩

/-- No pipe delivers more records than `n` for each write. -/
theorem Carries.count_le {n w r : ℕ} {t : ℕ → Record} {p : Pipe} (h : Carries n t w r p) :
    r ≤ n * w := by
  have hlen := h.length
  rw [Nat.mul_assoc] at hlen
  exact Nat.le_of_mul_le_mul_left (hlen ▸ Nat.le_add_left _ _) (show 0 < recordSize by decide)

/-- Causality holds in all runs exactly when the tables have at most one record. -/
theorem causal_iff (T : Tables) : (∀ s, (quiet T).Reachable s → Causal s) ↔ T.n ≤ 1 := by
  constructor
  · intro hall
    by_contra hn
    obtain ⟨s, hs, hsent, hgot⟩ := exists_early_read (T := T) (by omega)
    have hcausal := (hall s hs).1
    omega
  · intro hn s hs
    have hi := inv_of_reachable hs
    constructor
    · calc
        s.thread2.got.length ≤ T.n * s.thread1.sent := hi.carries1.count_le
        _ ≤ 1 * s.thread1.sent := Nat.mul_le_mul_right _ hn
        _ = s.thread1.sent := Nat.one_mul _
    · calc
        s.thread1.got.length ≤ T.n * s.thread2.sent := hi.carries2.count_le
        _ ≤ 1 * s.thread2.sent := Nat.mul_le_mul_right _ hn
        _ = s.thread2.sent := Nat.one_mul _

theorem causal_fails_ten :
    ¬ ∀ s, (quiet ⟨10, fun _ => default, fun _ => default⟩).Reachable s → Causal s := by
  intro hall
  obtain ⟨s, hs, hsent, hgot⟩ :=
    exists_early_read (T := ⟨10, fun _ => default, fun _ => default⟩) (by decide)
  have hcausal := (hall s hs).1
  omega

/-! ## Conservation -/

/-- All bytes were read from inside the tables, and each pipe holds the records that
    have been sent and not been read. -/
structure Conserved (T : Tables) (s : State) : Prop where
  inside1 : ∀ o ∈ s.fd1.sources, o < recordSize * T.n
  inside2 : ∀ o ∈ s.fd2.sources, o < recordSize * T.n
  bytes1 : s.fd1.bytes =
    encode T.t1 s.thread2.got.length (s.thread1.sent - s.thread2.got.length)
  bytes2 : s.fd2.bytes =
    encode T.t2 s.thread1.got.length (s.thread2.sent - s.thread1.got.length)

section Carries

variable {n w r : ℕ} {t : ℕ → Record} {p : Pipe}

/-- A pipe holds the unread records of the sender's rounds only where a write adds
    one record, or where all that was ever written has been read. -/
theorem Carries.of_bytes_eq (h : Carries n t w r p) (hb : p.bytes = encode t r (w - r)) :
    n * w = w ∨ r = n * w := by
  have hlen := h.length
  rw [hb, encode_length, ← Nat.mul_add, Nat.mul_assoc] at hlen
  have hcount : w - r + r = n * w := Nat.eq_of_mul_eq_mul_left (by decide) hlen
  omega

/-- With tables of one record a pipe holds just the unread records. -/
theorem Carries.bytes_of_le_one (h : Carries n t w r p) (hn : n ≤ 1) (hw : w ≤ n) :
    p.bytes = encode t r (w - r) := by
  have hcount := h.count_le
  obtain rfl | hpos := Nat.eq_zero_or_pos w
  · rw [h.of_zero.1, Nat.zero_sub]
    rfl
  · obtain rfl : n = 1 := by omega
    obtain rfl : w = 1 := by omega
    obtain ⟨tail, htail⟩ := h.front hpos
    have hlen := h.length
    rw [htail, List.length_append, encode_length] at hlen
    have hnil : tail = [] := List.eq_nil_of_length_eq_zero (by unfold recordSize at hlen; omega)
    rw [htail, hnil, List.append_nil]

theorem Carries.inside_of_le_one (h : Carries n t w r p) (hn : n ≤ 1) (hw : w ≤ n) :
    ∀ o ∈ p.sources, o < recordSize * n := by
  intro o ho
  obtain ⟨j, hj, -, hlt⟩ := h.sources o ho
  obtain rfl : j = 0 := by omega
  simpa using hlt

end Carries

/-- A state conserves the bytes exactly when the tables have at most one record or
    nothing has been written yet. -/
theorem conserved_iff (hs : (quiet T).Reachable s) :
    Conserved T s ↔ T.n ≤ 1 ∨ s.thread1.sent = 0 := by
  have hi := inv_of_reachable hs
  have hb1 := hi.requester.bounds
  have hb2 := hi.replier.bounds
  have hw1 := hb1.1
  have hw2 := hb2.1
  constructor
  · intro hc
    by_contra hnot
    rw [not_or, not_le] at hnot
    obtain ⟨hn, hsent⟩ := hnot
    have hgrow : ∀ {w : ℕ}, 0 < w → 2 * w ≤ T.n * w := fun _ => Nat.mul_le_mul_right _ hn
    have h1 := hi.carries1.of_bytes_eq hc.bytes1
    have h2 := hi.carries2.of_bytes_eq hc.bytes2
    have hg1 := hgrow (Nat.pos_of_ne_zero hsent)
    -- all that the first pipe carried has been read, so the second one has been
    -- written to, and its reader is too far behind to have emptied it
    have hpos : 0 < s.thread2.sent := by omega
    have hg2 := hgrow hpos
    omega
  · rintro (hn | hsent)
    · exact ⟨hi.carries1.inside_of_le_one hn hw1, hi.carries2.inside_of_le_one hn hw2,
        hi.carries1.bytes_of_le_one hn hw1, hi.carries2.bytes_of_le_one hn hw2⟩
    · have h1 := hi.carries1
      rw [hsent] at h1
      obtain ⟨hnil1, hgot2⟩ := h1.of_zero
      have h2 := hi.carries2
      rw [show s.thread2.sent = 0 by omega] at h2
      obtain ⟨hnil2, hgot1⟩ := h2.of_zero
      refine ⟨fun o ho => ?_, fun o ho => ?_, ?_, ?_⟩
      · obtain ⟨j, hj, -⟩ := h1.sources o ho
        exact absurd hj (Nat.not_lt_zero j)
      · obtain ⟨j, hj, -⟩ := h2.sources o ho
        exact absurd hj (Nat.not_lt_zero j)
      · rw [hnil1, hsent, Nat.zero_sub]
        rfl
      · rw [hnil2, show s.thread2.sent = 0 by omega, Nat.zero_sub]
        rfl

/-- With tables of one record: both handlers have sent theirs, and `thread2_handler` has read
    and logged the command. -/
def oneRecord : List Action :=
  [.head1, .write1 fun _ => 0, .count1, .head2, .call2, .read2 true, .log2, .write2 fun _ => 0]

theorem conserved_iff_one_record :
    ∃ s, (quiet ⟨1, fun _ => default, fun _ => default⟩).exec oneRecord
        (start (List.replicate 48 0) (List.replicate 48 0)) = some s ∧
      s.thread1.sent = 1 ∧ s.fd2.bytes.length = 48 ∧
        Conserved ⟨1, fun _ => default, fun _ => default⟩ s := by
  have hinit : (quiet ⟨1, fun _ => default, fun _ => default⟩).Reachable
      (start (List.replicate 48 0) (List.replicate 48 0)) :=
    .init ⟨_, _, List.length_replicate, List.length_replicate, rfl⟩
  have hreach := hinit.run (Program.run_of_exec _ oneRecord _ rfl)
  exact ⟨_, rfl, rfl, by decide, (conserved_iff hreach).mpr (Or.inl (Nat.le_refl 1))⟩

/-- The second write of `thread1_handler` starts at its second record and reads on
    behind the table. -/
def overrun : List Action :=
  [.head1, .write1 fun _ => 0, .count1, .head2, .call2, .read2 true, .log2, .write2 fun _ => 0,
    .call1, .read1 true, .log1, .head1, .write1 fun _ => 0]

theorem conserved_fails_ten : ∃ s,
    (quiet ⟨10, fun _ => default, fun _ => default⟩).Reachable s ∧ 480 ∈ s.fd1.sources ∧
      ¬ Conserved ⟨10, fun _ => default, fun _ => default⟩ s := by
  have hinit : (quiet ⟨10, fun _ => default, fun _ => default⟩).Reachable
      (start (List.replicate recordSize 0) (List.replicate recordSize 0)) :=
    .init ⟨_, _, List.length_replicate, List.length_replicate, rfl⟩
  have hreach := hinit.run (Program.run_of_exec _ overrun _ rfl)
  have hmem : 480 ∈ List.range' 0 480 ++ List.range' 48 480 := by simp
  refine ⟨_, hreach, hmem, fun hc => ?_⟩
  exact absurd (hc.inside1 480 hmem) (by decide)

end Apes.Pipes
