import Apes.Ipc.SharedMemoryDelivery
import Apes.Ipc.SharedMemoryProgress

/-!
# The acknowledgements of `shared_memory.c`

`thread2_handler` may overwrite `ptr1` at any moment, also between the three steps in
which `thread1_handler` sees `send`, logs the record and clears `send`. What
`thread1_handler` logs is nevertheless never behind its own round, because it has
taken no more acknowledgements than `send` has been set. A signal changes nothing.
-/

namespace Apes.SharedMemory

open Apes

variable {T : Tables} {s : State} {a : Action}

/-- How many acknowledgements `thread2_handler` has written to `ptr1`. -/
def State.answered (s : State) : ℕ :=
  match s.pc2 with
  | .count => s.i2 + 1
  | _ => s.i2

/-- The counter of `thread2_handler`, with or without a signal. -/
def Answers (n : ℕ) (pc : Pc2) (i : ℕ) : Prop :=
  match pc with
  | .unborn | .head | .killed | .done => i ≤ n
  | .logCmd | .publish | .count => i < n
  | .set => 0 < i ∧ i ≤ n

/-- Indices of records that were written before the `bound`-th one: they never go
    back, and none is behind its own place. -/
structure Ahead (ms : List ℕ) (bound : ℕ) : Prop where
  lt : ∀ m ∈ ms, m < bound
  ordered : ms.Pairwise (· ≤ ·)
  ahead : ∀ j m : ℕ, ms[j]? = some m → j ≤ m

namespace Ahead

variable {ms : List ℕ} {bound : ℕ}

theorem nil (bound : ℕ) : Ahead [] bound := ⟨by simp, List.Pairwise.nil, by simp⟩

theorem mono {bound' : ℕ} (h : Ahead ms bound) (hb : bound ≤ bound') : Ahead ms bound' :=
  ⟨fun m hm => (h.lt m hm).trans_le hb, h.ordered, h.ahead⟩

/-- The last record that was written may be logged next, if enough have been. -/
theorem concat (h : Ahead ms bound) (hlen : ms.length < bound) :
    Ahead (ms ++ [bound - 1]) bound where
  lt m hm := by
    rcases List.mem_append.mp hm with hm | hm
    · exact h.lt m hm
    · obtain rfl := List.mem_singleton.mp hm
      omega
  ordered := by
    refine List.pairwise_append.mpr ⟨h.ordered, List.pairwise_singleton _ _, ?_⟩
    intro m hm k hk
    obtain rfl := List.mem_singleton.mp hk
    exact Nat.le_sub_one_of_lt (h.lt m hm)
  ahead j m hj := by
    rcases Nat.lt_or_ge j ms.length with hlt | hge
    · rw [List.getElem?_append_left hlt] at hj
      exact h.ahead j m hj
    · rw [List.getElem?_append_right hge, List.getElem?_singleton] at hj
      split at hj
      · next hzero =>
        obtain rfl := Option.some.inj hj
        omega
      · cases hj

end Ahead

/-- What holds of the acknowledgements in every state, also after a signal. -/
structure Acks (T : Tables) (s : State) : Prop where
  answers : Answers T.n s.pc2 s.i2
  held : Held s
  useful : s.useful ≤ s.sets
  ptr1 : 0 < s.answered → s.ptr1 = T.t2 (s.answered - 1)
  length : s.logged1.length = if s.pc1 = .clear then s.taken + 1 else s.taken
  logged : ∃ ms, s.logged1 = ms.map T.t2 ∧ Ahead ms s.answered

theorem Answers.le_answered (h : Answers T.n s.pc2 s.i2) :
    s.sets ≤ s.answered ∧ s.answered ≤ T.n := by
  cases hpc : s.pc2 <;> simp only [Answers, hpc] at h <;>
    simp only [State.sets, State.answered, hpc] <;> omega

theorem acks_start (T : Tables) (ptr ptr1 : Record) : Acks T (start ptr ptr1) where
  answers := Nat.zero_le _
  held h := by simp [start] at h
  useful := le_rfl
  ptr1 h := absurd h (Nat.lt_irrefl 0)
  length := rfl
  logged := ⟨[], rfl, Ahead.nil _⟩

theorem taken_of_ne (hpc : s.pc1 ≠ .count) : s.taken = s.i1 := by
  unfold State.taken
  split
  · next h => exact absurd h hpc
  · rfl

/-- While `send` is set there is a setting that has not been taken. -/
theorem Acks.taken_lt (h : Acks T s) (hsend : s.send = true) : s.taken + 1 ≤ s.sets := by
  have huseful := h.useful
  rwa [State.useful, hsend, Bool.toNat_true] at huseful

/-- What is logged has been taken, or will be when `send` is cleared. -/
theorem Acks.length_le (h : Acks T s) : s.logged1.length ≤ s.sets := by
  rw [h.length]
  split
  · next hpc => exact h.taken_lt (h.held (Or.inr hpc))
  · exact (Nat.le_add_right _ _).trans h.useful

/-- What a step does to the two counts of `thread2_handler`. -/
theorem Answers.counts_act (h : Answers T.n s.pc2 s.i2) (hg : guard s a) :
    Answers T.n (act T a s).pc2 (act T a s).i2 ∧
    (act T a s).sets = (if a = .set2 then s.sets + 1 else s.sets) ∧
    (act T a s).answered = if a = .publish2 then s.answered + 1 else s.answered := by
  cases a with
  | head2 =>
    have hpc : s.pc2 = .head := hg
    simp only [Answers, hpc] at h
    cases hf : s.flag with
    | true => simp [act, Answers, State.sets, State.answered, hpc, hf, h]
    | false =>
      by_cases hn : s.i2 = T.n
      · simp [act, Answers, State.sets, State.answered, hpc, hf, hn]
      · simp [act, Answers, State.sets, State.answered, hpc, hf, hn, lt_of_le_of_ne h hn]
  | start2 | logCmd2 | publish2 | count2 | set2 =>
    simp only [guard] at hg
    simp only [Answers, hg] at h
    simp [act, Answers, State.sets, State.answered, hg]
    omega
  | _ => exact ⟨h, rfl, rfl⟩

/-- A step of `thread1_handler` that does not log, clear or count. -/
theorem Acks.move1 (h : Acks T s) (r : Record) {pc : Pc1} (hfrom : s.pc1 ≠ .clear ∧ s.pc1 ≠ .count)
    (hto : pc ≠ .clear ∧ pc ≠ .count) (hlog : pc = .logAck → s.send = true) :
    Acks T { s with pc1 := pc, ptr := r } := by
  have htaken : State.taken { s with pc1 := pc, ptr := r } = s.taken := by
    rw [taken_of_ne hfrom.2, taken_of_ne hto.2]
  refine { h with held := ?_, useful := ?_, length := ?_ }
  · rintro (hpc | hpc)
    · exact hlog hpc
    · exact absurd hpc hto.1
  · rw [State.useful, htaken]
    exact h.useful
  · rw [htaken, if_neg hto.1]
    simpa only [if_neg hfrom.1] using h.length

theorem Acks.step (h : Acks T s) (hg : guard s a) : Acks T (act T a s) := by
  obtain ⟨hans, hsets, hanswered⟩ := h.answers.counts_act hg
  cases a with
  | sigint => exact { h with }
  | head1 =>
    have hpc : s.pc1 = .head := hg
    refine h.move1 s.ptr (by simp [hpc]) ?_ ?_ <;> (split <;> [skip; split]) <;> simp
  | publish1 =>
    have hpc : s.pc1 = .publish := hg
    exact h.move1 _ (by simp [hpc]) (by simp) (by simp)
  | poll1 =>
    have hpc : s.pc1 = .poll := hg
    cases hs : s.send with
    | false =>
      rw [show act T .poll1 s = { s with pc1 := .pollFlag } by simp [act, hs]]
      exact h.move1 s.ptr (by simp [hpc]) (by simp) (by simp)
    | true =>
      rw [show act T .poll1 s = { s with pc1 := .logAck } by simp [act, hs]]
      exact h.move1 s.ptr (by simp [hpc]) (by simp) (by simp [hs])
  | pollFlag1 =>
    have hpc : s.pc1 = .pollFlag := hg
    refine h.move1 s.ptr (by simp [hpc]) ?_ ?_ <;> split <;> simp
  | logAck1 =>
    have hpc : s.pc1 = .logAck := hg
    have hsend : s.send = true := h.held (Or.inl hpc)
    have htaken : s.taken = s.i1 := taken_of_ne (by simp [hpc])
    have hlen := h.length
    rw [if_neg (by simp [hpc]), htaken] at hlen
    have huseful := h.taken_lt hsend
    rw [htaken] at huseful
    obtain ⟨ms, hms, hahead⟩ := h.logged
    have hcount : ms.length = s.i1 := by rw [← hlen, hms, List.length_map]
    have hle := h.answers.le_answered.1
    have hpos : 0 < s.answered := by omega
    refine { h with held := fun _ => hsend, useful := ?_, length := ?_, logged := ?_ }
    · rw [hsets, if_neg (by decide)]
      simpa [act, State.useful, State.taken, hsend] using huseful
    · simp [act, State.taken, hlen]
    · refine ⟨ms ++ [s.answered - 1], ?_, hahead.concat (by omega)⟩
      simp only [act]
      rw [h.ptr1 hpos, hms, List.map_append, List.map_singleton]
  | clear1 =>
    have hpc : s.pc1 = .clear := hg
    have htaken : s.taken = s.i1 := taken_of_ne (by simp [hpc])
    have hlen := h.length
    rw [if_pos hpc, htaken] at hlen
    have huseful := h.taken_lt (h.held (Or.inr hpc))
    rw [htaken] at huseful
    refine { h with held := by simp [Held, act], useful := ?_, length := ?_ }
    · rw [hsets, if_neg (by decide)]
      simpa [act, State.useful, State.taken] using huseful
    · simpa [act, State.taken] using hlen
  | count1 =>
    have hpc : s.pc1 = .count := hg
    have hlen := h.length
    have huseful := h.useful
    simp only [State.useful, State.taken, hpc] at hlen huseful
    refine { h with held := by simp [Held, act], useful := ?_, length := ?_ }
    · rw [hsets, if_neg (by decide)]
      simpa [act, State.useful, State.taken] using huseful
    · simpa [act, State.taken] using hlen
  | publish2 =>
    have hpc : s.pc2 = .publish := hg
    rw [if_neg (by decide)] at hsets
    rw [if_pos rfl] at hanswered
    obtain ⟨ms, hms, hahead⟩ := h.logged
    refine ⟨hans, h.held, ?_, fun _ => ?_, h.length, ms, hms, ?_⟩
    · rw [hsets]
      exact h.useful
    · rw [hanswered, Nat.add_sub_cancel]
      simp [act, State.answered, hpc]
    · rw [hanswered]
      exact hahead.mono (Nat.le_succ _)
  | set2 =>
    rw [if_pos rfl] at hsets
    rw [if_neg (by decide)] at hanswered
    refine ⟨hans, fun _ => rfl, ?_, ?_, h.length, ?_⟩
    · rw [hsets]
      have huseful := h.useful
      have hbit := Bool.toNat_le s.send
      show s.taken + 1 ≤ s.sets + 1
      rw [State.useful] at huseful
      omega
    · rw [hanswered]
      exact h.ptr1
    · rw [hanswered]
      exact h.logged
  | start2 | head2 | logCmd2 | count2 =>
    rw [if_neg (by decide)] at hsets hanswered
    refine ⟨hans, h.held, ?_, ?_, h.length, ?_⟩
    · rw [hsets]
      exact h.useful
    · rw [hanswered]
      exact h.ptr1
    · rw [hanswered]
      exact h.logged

theorem acks_of_reachable (hs : (program T).Reachable s) : Acks T s := by
  refine hs.invariant ?_ fun s a _ h hg => h.step hg
  rintro s ⟨ptr, ptr1, rfl⟩
  exact acks_start T ptr ptr1

/-- The acknowledgements that `thread1_handler` logs are records of `t2` that have been
    written to `ptr1`, none is behind its own round or older than the one before it,
    and there are no more of them than `send` has been set. -/
theorem acks_ahead (T : Tables) {ptr ptr1 : Record} {as : List Action} {s : State}
    (h : (program T).Run (start ptr ptr1) as s) :
    (∃ ms : List ℕ, s.logged1 = ms.map T.t2 ∧ (∀ m ∈ ms, m < as.count .publish2 ∧ m < T.n) ∧
      (∀ j m : ℕ, ms[j]? = some m → j ≤ m) ∧ ms.Pairwise (· ≤ ·)) ∧
    s.logged1.length ≤ as.count .set2 := by
  have hinit : (program T).Reachable (start ptr ptr1) := .init ⟨ptr, ptr1, rfl⟩
  have hsets : s.sets = 0 + as.count .set2 := Program.Run.count_eq
    (fun s a hs hg => ((acks_of_reachable hs).answers.counts_act hg).2.1) hinit h
  have hanswered : s.answered = 0 + as.count .publish2 := Program.Run.count_eq
    (fun s a hs hg => ((acks_of_reachable hs).answers.counts_act hg).2.2) hinit h
  have hacks := acks_of_reachable (hinit.run h)
  obtain ⟨ms, hms, hahead⟩ := hacks.logged
  have hle := hacks.answers.le_answered.2
  refine ⟨⟨ms, hms, fun m hm => ?_, hahead.ahead, hahead.ordered⟩, ?_⟩
  · have hlt := hahead.lt m hm
    omega
  · have hlen := hacks.length_le
    omega

/-- `thread2_handler` makes two rounds before `thread1_handler` looks at `send`. -/
def twoRounds : List Action :=
  [.head1, .publish1, .start2, .head2, .logCmd2, .publish2, .count2, .set2, .head2, .logCmd2,
    .publish2, .count2, .set2, .poll1, .logAck1]

/-- The second acknowledgement is logged as the first one. -/
theorem acks_ahead_two_rounds :
    ∃ s, (program ⟨10, numbered, numbered⟩).exec twoRounds (start default default) = some s ∧
      s.logged1 = [numbered 1] ∧ s.logged1.length ≤ 2 := by
  refine ⟨_, rfl, rfl, ?_⟩
  exact (acks_ahead ⟨10, numbered, numbered⟩ (Program.run_of_exec _ twoRounds _ rfl)).2

end Apes.SharedMemory
