import Apes.Ipc.QueuesLifetimes

/-!
# The shutdown of `queues.c`

`SIGINT` sets `flag`, and each handler looks at it at the head of its loop only. A
handler that leaves there may leave the other one waiting for a record that nobody
will send any more; `main` then waits for that handler forever.
-/

namespace Apes.Queues

open Apes

variable {T : Tables} {s : State} {a : Action} {r : Role}

/-- `SIGINT` interrupts no call: a call fails only on a descriptor that is closed. -/
def Uninterrupted (s : State) : Action → Prop
  | .send1 ok | .call2 ok => ok = true ∨ ¬ s.mqdes1.IsOpen
  | .send2 ok | .call1 ok => ok = true ∨ ¬ s.mqdes2.IsOpen
  | .receive1 ok | .receive2 ok => ok = true
  | _ => True

instance (s : State) : DecidablePred (Uninterrupted s)
  | .send1 _ | .call2 _ | .send2 _ | .call1 _ => inferInstanceAs (Decidable (_ ∨ _))
  | .receive1 ok | .receive2 ok => inferInstanceAs (Decidable (ok = true))
  | .sigint | .head1 | .count1 | .log1 | .close1 | .head2 | .log2 | .count2 | .close2
  | .mainClose1 | .mainClose2 => .isTrue trivial

/-- The runs in which `SIGINT` is delivered to `main`. -/
def uninterrupted (T : Tables) : Program State Action := (program T).restrict Uninterrupted

instance (T : Tables) (s : State) (a : Action) : Decidable ((uninterrupted T).guard s a) :=
  inferInstanceAs (Decidable (guard s a ∧ Uninterrupted s a))

/-- One handler has left after a signal, the other one is blocked in `mq_receive` on an
    empty queue. -/
def Stranded (s : State) : Prop :=
  s.thread1.pc = .killed ∧ s.thread2.pc = .waiting ∧ s.mqdes1.msgs = [] ∨
  s.thread2.pc = .killed ∧ s.thread1.pc = .waiting ∧ s.mqdes2.msgs = []

/-- `thread1_handler` has passed its check of `flag` and not received yet. -/
def Asks (pc : Pc) : Prop := pc = .send ∨ pc = .count ∨ pc = .call ∨ pc = .waiting

/-- `thread2_handler` has passed its check of `flag` and not received yet. -/
def Listens (pc : Pc) : Prop := pc = .call ∨ pc = .waiting

/-- On its way out after a signal. -/
def Closing (pc : Pc) : Prop := pc = .close ∨ pc = .killed

instance : DecidablePred Asks := fun _ => inferInstanceAs (Decidable (_ ∨ _))
instance : DecidablePred Listens := fun _ => inferInstanceAs (Decidable (_ ∨ _))

/-- A handler leaves after a signal only where the other one has a record to receive, if
    it is going to receive at all. -/
def LeavesServed (s : State) : Action → Prop
  | .head1 => s.flag = true → Listens s.thread2.pc → s.mqdes1.msgs ≠ []
  | .head2 => s.flag = true → Asks s.thread1.pc → s.mqdes2.msgs ≠ []
  | _ => True

/-! ## What a step can do -/

theorem flag_act (hf : s.flag = true) : (act T a s).flag = true := by
  cases a with
  | sigint => rfl
  | mainClose1 | mainClose2 => exact hf
  | head1 | send1 | count1 | call1 | receive1 | log1 | close1 => exact act1_flag.trans hf
  | head2 | call2 | receive2 | log2 | send2 | count2 | close2 => exact act2_flag.trans hf

/-- A handler has passed its check of `flag` and not received yet. -/
def Needs : Role → Pc → Prop
  | .first => Asks
  | .second => Listens

theorem leavesServed_headOf : LeavesServed s (headOf r) ↔
    (s.flag = true → Needs r.other (s.thread r.other).pc → (s.mqdes r).msgs ≠ []) := by
  cases r <;> exact Iff.rfl

namespace Moves

variable {flag : Bool} {n : ℕ} {t : ℕ → Record} {h h' : Handler Record} {own own' peer peer' : Mq}

/-- A handler takes nothing out of the queue that it sends to. -/
theorem own_msgs (hm : Moves r flag n t h own peer h' own' peer') (hne : own.msgs ≠ []) :
    own'.msgs ≠ [] := by
  cases hm with
  | send => exact List.concat_ne_nil _ _
  | _ => exact hne

theorem closing (hm : Moves r flag n t h own peer h' own' peer') (hc : Closing h'.pc) :
    Closing h.pc ∨ h.pc = .head ∧ flag = true := by
  cases hm with
  | head hpc =>
    cases flag with
    | true => exact Or.inr ⟨hpc, rfl⟩
    | false =>
      by_cases hn : h.i = n <;> cases r <;>
        simp [Closing, Handler.checkHead, hn, Role.next] at hc
  | close hpc => exact Or.inl (Or.inl hpc)
  | count | log =>
    cases r <;> simp [Closing, Handler.count, Handler.writeLog, Role.next] at hc
  | _ => simp [Closing, Handler.send, Handler.goto, Handler.receive] at hc

theorem needs (hm : Moves r flag n t h own peer h' own' peer') (hneeds : Needs r h'.pc) :
    (Needs r h.pc ∧ peer' = peer) ∨ h.pc = .head ∧ flag = false := by
  cases hm with
  | head hpc =>
    cases flag with
    | false => exact Or.inr ⟨hpc, rfl⟩
    | true => cases r <;> simp [Needs, Asks, Listens, Handler.checkHead] at hneeds
  | send hpc | sendFails hpc | count hpc =>
    cases r with
    | first => exact Or.inl ⟨by simp [Needs, Asks, hpc], rfl⟩
    | second => simp [Needs, Listens, Handler.send, Handler.count, Role.next] at hneeds
  | call hpc =>
    refine Or.inl ⟨?_, rfl⟩
    cases r <;> simp [Needs, Asks, Listens, hpc]
  | callFails | receive | receiveFails | log | close =>
    cases r <;> simp [Needs, Asks, Listens, Handler.goto, Handler.receive, Handler.writeLog,
      Role.next] at hneeds

end Moves

/-- A handler is on its way out after a signal only if it was before, or if it has just
    seen `flag`. -/
theorem closing_of_act (hg : guard s a) (hc : Closing ((act T a s).thread r).pc) :
    Closing (s.thread r).pc ∨ a = headOf r ∧ s.flag = true := by
  by_cases ha : a.By r
  · rcases (act_moves (T := T) hg ha).closing hc with hc | ⟨hpc, hf⟩
    · exact Or.inl hc
    · exact Or.inr ⟨eq_headOf hg ha hpc, hf⟩
  · exact Or.inl (thread_act (T := T) ha ▸ hc)

/-- What a handler receives from is emptied by its own steps only. -/
theorem msgs_act (hg : guard s a) (ha : ¬ a.By r) (hne : (s.mqdes r.other).msgs ≠ []) :
    ((act T a s).mqdes r.other).msgs ≠ [] := by
  by_cases hother : a.By r.other
  · exact (act_moves (T := T) hg hother).own_msgs hne
  · cases r <;> cases a <;>
      first | exact absurd trivial ha | exact absurd trivial hother | exact hne

/-- A handler is between its check and its receive only if it was before, and its queue has
    not been emptied meanwhile, or if it has just seen no `flag`. -/
theorem needs_of_act (hg : guard s a) (hneeds : Needs r ((act T a s).thread r).pc) :
    (Needs r (s.thread r).pc ∧
        ((s.mqdes r.other).msgs ≠ [] → ((act T a s).mqdes r.other).msgs ≠ [])) ∨
      a = headOf r ∧ s.flag = false := by
  by_cases ha : a.By r
  · rcases (act_moves (T := T) hg ha).needs hneeds with ⟨hold, hpeer⟩ | ⟨hpc, hf⟩
    · exact Or.inl ⟨hold, fun hne => hpeer ▸ hne⟩
    · exact Or.inr ⟨eq_headOf hg ha hpc, hf⟩
  · exact Or.inl ⟨thread_act (T := T) ha ▸ hneeds, msgs_act hg ha⟩

/-! ## Handlers that leave with the other one served -/

/-- A handler on its way out after a signal has left no other one without a record. -/
def Served (s : State) : Prop :=
  ∀ r, Closing (s.thread r).pc →
    s.flag = true ∧ (Needs r.other (s.thread r.other).pc → (s.mqdes r).msgs ≠ [])

theorem Served.step (h : Served s) (hg : guard s a) (ha : LeavesServed s a) :
    Served (act T a s) := by
  intro r hc
  -- `flag` is set now, so the other handler cannot have passed its check in this step
  have hleave : s.flag = true ∧
      (Needs r.other (s.thread r.other).pc → (s.mqdes r).msgs ≠ []) := by
    rcases closing_of_act hg hc with hc | ⟨rfl, hf⟩
    · exact h r hc
    · exact ⟨hf, leavesServed_headOf.mp ha hf⟩
  refine ⟨flag_act hleave.1, fun hneeds => ?_⟩
  rcases needs_of_act hg hneeds with ⟨hneeds, hmsgs⟩ | ⟨-, hf⟩
  · rw [Role.other_other] at hmsgs
    exact hmsgs (hleave.2 hneeds)
  · exact absurd hleave.1 (by simp [hf])

theorem not_stranded_of_served (hs : ((uninterrupted T).restrict LeavesServed).Reachable s) :
    ¬ Stranded s := by
  have hserved : Served s := by
    refine hs.invariant (I := Served) ?_ ?_
    · rintro s ⟨buff1, buff2, rfl⟩ (_ | _) (h | h) <;> cases h
    · rintro s a - h ⟨⟨hg, -⟩, ha⟩
      exact h.step hg ha
  rintro (⟨h1, h2, hnil⟩ | ⟨h2, h1, hnil⟩)
  · exact (hserved .first (Or.inr h1)).2 (Or.inr h2) hnil
  · exact (hserved .second (Or.inr h2)).2 (Or.inr (Or.inr (Or.inr h1))) hnil

/-! ## A handler that leaves too early -/

/-- The requests of `thread1_handler` that it has not received an answer to. -/
def owed (pc : Pc) : ℕ := if pc = .count ∨ pc = .call ∨ pc = .waiting then 1 else 0

/-- The requests that `thread2_handler` has received and not answered. -/
def due (pc : Pc) : ℕ := if pc = .log ∨ pc = .send then 1 else 0

/-- How many records have been exchanged. The bounds hold as long as the other handler is
    there: it closes its queue when it leaves. -/
structure Balance (s : State) : Prop where
  taken1 : s.thread2.got.length + s.mqdes1.msgs.length = s.thread1.sent
  taken2 : s.thread1.got.length + s.mqdes2.msgs.length = s.thread2.sent
  asked : ¬ s.thread2.Exited → s.thread1.sent ≤ s.thread1.got.length + owed s.thread1.pc
  answered : ¬ s.thread1.Exited → s.thread2.sent + due s.thread2.pc ≤ s.thread2.got.length

namespace Balance

theorem start (buff1 buff2 : Record) : Balance (start buff1 buff2) where
  taken1 := rfl
  taken2 := rfl
  asked _ := Nat.zero_le _
  answered _ := Nat.zero_le _

/-- A step of `thread1_handler` that touches no queue. -/
theorem local1 (hb : Balance s) {h' : Handler Record} (hpc : ¬ s.thread1.Exited)
    (hsent : h'.sent = s.thread1.sent) (hgot : h'.got = s.thread1.got)
    (howed : ¬ s.thread2.Exited → owed h'.pc = owed s.thread1.pc) :
    Balance { s with thread1 := h' } where
  taken1 := by simpa only [hsent] using hb.taken1
  taken2 := by simpa only [hgot] using hb.taken2
  asked h2 := by simpa only [hsent, hgot, howed h2] using hb.asked h2
  answered _ := hb.answered hpc

/-- A step of `thread2_handler` that touches no queue. -/
theorem local2 (hb : Balance s) {h' : Handler Record} (hpc : ¬ s.thread2.Exited)
    (hsent : h'.sent = s.thread2.sent) (hgot : h'.got = s.thread2.got)
    (hdue : ¬ s.thread1.Exited → due h'.pc = due s.thread2.pc) :
    Balance { s with thread2 := h' } where
  taken1 := by simpa only [hgot] using hb.taken1
  taken2 := by simpa only [hsent] using hb.taken2
  asked _ := hb.asked hpc
  answered h1 := by simpa only [hsent, hgot, hdue h1] using hb.answered h1

theorem act1 (hb : Balance s) (hl : Lifetimes s) (hg : guard s a) (hu : Uninterrupted s a) :
    Balance (act1 T s a) := by
  cases a with
  | head1 =>
    have hpc : s.thread1.pc = .head := hg
    refine hb.local1 (by simp [Handler.Exited, hpc]) rfl rfl fun _ => ?_
    simp only [Handler.checkHead, hpc]
    split
    · rfl
    · split <;> rfl
  | send1 ok =>
    have hpc : s.thread1.pc = .send := hg.1
    have hlive : ¬ s.thread1.Exited := by simp [Handler.Exited, hpc]
    cases ok with
    | false => exact absurd (hl.open1 hlive) (hu.resolve_left (by decide))
    | true =>
      refine { hb with taken1 := ?_, asked := fun h2 => ?_, answered := fun _ => hb.answered hlive }
      · have := hb.taken1
        simp only [Queues.act1, Handler.send, Mq.send, List.length_append, List.length_singleton]
        simp only [if_true]
        omega
      · have := hb.asked h2
        simp only [owed, hpc] at this
        simpa [Queues.act1, Handler.send, owed] using this
  | count1 =>
    have hpc : s.thread1.pc = .count := hg
    exact hb.local1 (by simp [Handler.Exited, hpc]) rfl rfl fun _ => by rw [hpc]; rfl
  | call1 ok =>
    have hpc : s.thread1.pc = .call := hg.1
    have hlive : ¬ s.thread1.Exited := by simp [Handler.Exited, hpc]
    cases ok with
    | false =>
      exact hb.local1 hlive rfl rfl fun h2 =>
        absurd (hl.open2 h2) (hu.resolve_left (by decide))
    | true => exact hb.local1 hlive rfl rfl fun _ => by rw [hpc]; rfl
  | receive1 ok =>
    obtain rfl : ok = true := hu
    have hpc : s.thread1.pc = .waiting := hg.1
    cases hm : s.mqdes2.msgs with
    | nil => exact absurd hm (hg.2 rfl)
    | cons r rest =>
      simp only [Queues.act1, hm]
      refine { hb with taken2 := ?_, asked := fun h2 => ?_, answered := fun _ => ?_ }
      · have := hb.taken2
        simp only [hm, List.length_cons] at this
        simp only [Mq.pop, Handler.receive, hm, List.tail_cons, List.length_append,
          List.length_singleton]
        omega
      · have := hb.asked h2
        simpa [owed, hpc, Handler.receive] using this
      · exact hb.answered (by simp [Handler.Exited, hpc])
  | log1 =>
    have hpc : s.thread1.pc = .log := hg
    exact hb.local1 (by simp [Handler.Exited, hpc]) rfl rfl fun _ => by rw [hpc]; rfl
  | close1 =>
    have hpc : s.thread1.pc = .close := hg
    have hlocal : Balance { s with thread1 := s.thread1.goto .killed } :=
      hb.local1 (by simp [Handler.Exited, hpc]) rfl rfl fun _ => by rw [hpc]; rfl
    exact { hlocal with }
  | _ => exact hb

theorem act2 (hb : Balance s) (hl : Lifetimes s) (hg : guard s a) (hu : Uninterrupted s a) :
    Balance (act2 T s a) := by
  cases a with
  | head2 =>
    have hpc : s.thread2.pc = .head := hg
    refine hb.local2 (by simp [Handler.Exited, hpc]) rfl rfl fun _ => ?_
    simp only [Handler.checkHead, hpc]
    split
    · rfl
    · split <;> rfl
  | call2 ok =>
    have hpc : s.thread2.pc = .call := hg.1
    have hlive : ¬ s.thread2.Exited := by simp [Handler.Exited, hpc]
    cases ok with
    | false =>
      exact hb.local2 hlive rfl rfl fun h1 =>
        absurd (hl.open1 h1) (hu.resolve_left (by decide))
    | true => exact hb.local2 hlive rfl rfl fun _ => by rw [hpc]; rfl
  | receive2 ok =>
    obtain rfl : ok = true := hu
    have hpc : s.thread2.pc = .waiting := hg.1
    cases hm : s.mqdes1.msgs with
    | nil => exact absurd hm (hg.2 rfl)
    | cons r rest =>
      simp only [Queues.act2, hm]
      refine { hb with taken1 := ?_, asked := fun _ => ?_, answered := fun h1 => ?_ }
      · have := hb.taken1
        simp only [hm, List.length_cons] at this
        simp only [Mq.pop, Handler.receive, hm, List.tail_cons, List.length_append,
          List.length_singleton]
        omega
      · exact hb.asked (by simp [Handler.Exited, hpc])
      · have := hb.answered h1
        simpa [due, hpc, Handler.receive] using this
  | log2 =>
    have hpc : s.thread2.pc = .log := hg
    exact hb.local2 (by simp [Handler.Exited, hpc]) rfl rfl fun _ => by rw [hpc]; rfl
  | send2 ok =>
    have hpc : s.thread2.pc = .send := hg.1
    have hlive : ¬ s.thread2.Exited := by simp [Handler.Exited, hpc]
    cases ok with
    | false => exact absurd (hl.open2 hlive) (hu.resolve_left (by decide))
    | true =>
      refine { hb with taken2 := ?_, asked := fun _ => hb.asked hlive, answered := fun h1 => ?_ }
      · have := hb.taken2
        simp only [Queues.act2, Handler.send, Mq.send, List.length_append, List.length_singleton]
        simp only [if_true]
        omega
      · have := hb.answered h1
        simpa [Queues.act2, Handler.send, due, hpc] using this
  | count2 =>
    have hpc : s.thread2.pc = .count := hg
    exact hb.local2 (by simp [Handler.Exited, hpc]) rfl rfl fun _ => by rw [hpc]; rfl
  | close2 =>
    have hpc : s.thread2.pc = .close := hg
    have hlocal : Balance { s with thread2 := s.thread2.goto .killed } :=
      hb.local2 (by simp [Handler.Exited, hpc]) rfl rfl fun _ => by rw [hpc]; rfl
    exact { hlocal with }
  | _ => exact hb

theorem act (hb : Balance s) (hl : Lifetimes s) (hg : guard s a) (hu : Uninterrupted s a) :
    Balance (act T a s) := by
  cases a with
  | sigint | mainClose1 | mainClose2 => exact { hb with }
  | head1 | send1 | count1 | call1 | receive1 | log1 | close1 => exact hb.act1 (T := T) hl hg hu
  | head2 | call2 | receive2 | log2 | send2 | count2 | close2 => exact hb.act2 (T := T) hl hg hu

end Balance

theorem balance_of_reachable (hs : (uninterrupted T).Reachable s) : Balance s := by
  refine hs.invariant (I := Balance) ?_ ?_
  · rintro s ⟨buff1, buff2, rfl⟩
    exact Balance.start buff1 buff2
  · rintro s a hs hb ⟨hg, hu⟩
    exact hb.act (lifetimes_of_reachable hs.of_restrict) hg hu

/-- `s` leads to a state in which a handler is stranded. -/
def Strands (T : Tables) (s : State) : Prop := (uninterrupted T).CanReach Stranded s

section Leaves1

/-! `thread1_handler` is about to close its queue, which is empty. -/

theorem strands_of_waiting2 (h1 : s.thread1.pc = .close) (h2 : s.thread2.pc = .waiting)
    (hm : s.mqdes1.msgs = []) : Strands T s :=
  Program.CanReach.step .close1 ⟨h1, trivial⟩ (Program.CanReach.of_now (Or.inl ⟨rfl, h2, hm⟩))

theorem strands_of_listens (h1 : s.thread1.pc = .close) (h2 : Listens s.thread2.pc)
    (hm : s.mqdes1.msgs = []) (hopen : s.mqdes1.IsOpen) : Strands T s := by
  rcases h2 with h2 | h2
  · exact Program.CanReach.step (.call2 true) ⟨⟨h2, fun _ => hopen⟩, Or.inl rfl⟩
      (strands_of_waiting2 h1 rfl hm)
  · exact strands_of_waiting2 h1 h2 hm

end Leaves1

section Leaves2

/-! `thread2_handler` is about to close its queue, which is empty. -/

theorem strands_of_waiting1 (h2 : s.thread2.pc = .close) (h1 : s.thread1.pc = .waiting)
    (hm : s.mqdes2.msgs = []) : Strands T s :=
  Program.CanReach.step .close2 ⟨h2, trivial⟩ (Program.CanReach.of_now (Or.inr ⟨rfl, h1, hm⟩))

theorem strands_of_call1 (h2 : s.thread2.pc = .close) (h1 : s.thread1.pc = .call)
    (hm : s.mqdes2.msgs = []) (hopen : s.mqdes2.IsOpen) : Strands T s :=
  Program.CanReach.step (.call1 true) ⟨⟨h1, fun _ => hopen⟩, Or.inl rfl⟩
    (strands_of_waiting1 h2 rfl hm)

theorem strands_of_count1 (h2 : s.thread2.pc = .close) (h1 : s.thread1.pc = .count)
    (hm : s.mqdes2.msgs = []) (hopen : s.mqdes2.IsOpen) : Strands T s :=
  Program.CanReach.step .count1 ⟨h1, trivial⟩ (strands_of_call1 h2 rfl hm hopen)

theorem strands_of_send1 (h2 : s.thread2.pc = .close) (h1 : s.thread1.pc = .send)
    (hm : s.mqdes2.msgs = []) (hopen : s.mqdes2.IsOpen) (hopen1 : s.mqdes1.IsOpen)
    (hroom : s.mqdes1.msgs.length < Mq.maxmsg) : Strands T s :=
  Program.CanReach.step (.send1 true) ⟨⟨h1, fun _ => ⟨hopen1, hroom⟩⟩, Or.inl rfl⟩
    (strands_of_count1 h2 rfl hm hopen)

end Leaves2

/-- Where `thread1_handler` is about to send, everything it has sent is answered. -/
theorem Balance.mqdes1_eq_nil (hb : Balance s) (h1 : s.thread1.pc = .send)
    (h2 : ¬ s.thread2.Exited) : s.mqdes1.msgs = [] := by
  have htaken1 := hb.taken1
  have htaken2 := hb.taken2
  have hasked := hb.asked h2
  have hanswered := hb.answered (by simp [Handler.Exited, h1])
  simp only [owed, h1] at hasked
  exact List.length_eq_zero_iff.mp (by simp at hasked; omega)

/-- A handler that leaves although the other one still needs a record strands it. -/
theorem strands_of_not_leavesServed (hs : (uninterrupted T).Reachable s)
    (hg : (uninterrupted T).guard s a) (ha : ¬ LeavesServed s a) : Strands T (act T a s) := by
  have hb := balance_of_reachable hs
  have hl := lifetimes_of_reachable hs.of_restrict
  cases a with
  | head1 =>
    have hpc : s.thread1.pc = .head := hg.1
    simp only [LeavesServed, not_forall, not_not] at ha
    obtain ⟨hf, hlistens, hm⟩ := ha
    have hclose : (act T .head1 s).thread1.pc = .close := if_pos hf
    exact strands_of_listens hclose hlistens hm (hl.open1 (by simp [Handler.Exited, hpc]))
  | head2 =>
    have hpc : s.thread2.pc = .head := hg.1
    simp only [LeavesServed, not_forall, not_not] at ha
    obtain ⟨hf, hasks, hm⟩ := ha
    have hclose : (act T .head2 s).thread2.pc = .close := if_pos hf
    have hlive2 : ¬ s.thread2.Exited := by simp [Handler.Exited, hpc]
    have hopen2 := hl.open2 hlive2
    rcases hasks with h1 | h1 | h1 | h1
    · have hnil := hb.mqdes1_eq_nil h1 hlive2
      have hopen1 := hl.open1 (by simp [Handler.Exited, h1])
      exact strands_of_send1 hclose h1 hm hopen2 hopen1 (by simp [act, act2, hnil, Mq.maxmsg])
    · exact strands_of_count1 hclose h1 hm hopen2
    · exact strands_of_call1 hclose h1 hm hopen2
    · exact strands_of_waiting1 hclose h1 hm
  | _ => exact absurd trivial ha

/-- In a stranded state nothing can happen any more but another signal: `main` waits in
    `pthread_join` for ever. -/
theorem Stranded.eq_sigint (hs : (uninterrupted T).Reachable s) (h : Stranded s)
    (hg : (uninterrupted T).guard s a) : a = .sigint := by
  have hl := lifetimes_of_reachable hs.of_restrict
  obtain ⟨hg, hu⟩ := hg
  rcases h with ⟨h1, h2, hm⟩ | ⟨h2, h1, hm⟩
  · have hjoin : s.main = .join := by
      by_contra hmain
      have := (hl.main hmain).2
      simp [Handler.Exited, h2] at this
    cases a <;> simp_all [program, guard, Uninterrupted, Handler.Exited]
  · have hjoin : s.main = .join := by
      by_contra hmain
      have := (hl.main hmain).1
      simp [Handler.Exited, h1] at this
    cases a <;> simp_all [program, guard, Uninterrupted, Handler.Exited]

/-- No handler is stranded in the runs in which both handlers leave served, and a handler
    that leaves in another way can always be the start of a run into a stranded state. -/
theorem stranded_iff_leaves (T : Tables) :
    (∀ s, ((uninterrupted T).restrict LeavesServed).Reachable s → ¬ Stranded s) ∧
    ∀ s a, (uninterrupted T).Reachable s → (uninterrupted T).guard s a →
      ¬ LeavesServed s a → Strands T (act T a s) :=
  ⟨fun _ hs => not_stranded_of_served hs,
    fun _ _ hs hg ha => strands_of_not_leavesServed hs hg ha⟩

/-- `SIGINT` comes while `thread2_handler` is at the head of its loop and
    `thread1_handler` waits for its answer. -/
theorem stranded_after_sigint :
    ¬ ∀ s, (uninterrupted ⟨10, default, default⟩).Reachable s → ¬ Stranded s := by
  intro hall
  let schedule : List Action :=
    [.head1, .send1 true, .count1, .call1 true, .sigint, .head2, .close2]
  have hinit : (uninterrupted ⟨10, default, default⟩).Reachable (start default default) :=
    .init ⟨default, default, rfl⟩
  have hreach := hinit.run (Program.run_of_exec _ schedule _ rfl)
  exact hall _ hreach (Or.inr ⟨rfl, rfl, rfl⟩)

end Apes.Queues
