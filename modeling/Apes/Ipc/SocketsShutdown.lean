import Apes.Ipc.SocketsProgress

/-!
# The shutdown of `sockets.c`

`SIGINT` is delivered to `main`, so that it interrupts no `recv`, and each handler looks at
`flag` at the head of its loop only. Bytes that are left over from earlier records can keep
a handler going after the other one has left; where there are none it waits for ever.
-/

namespace Apes.Sockets

open Apes

variable {T : Tables} {s : State} {a : Action} {r : Role}

/-- One handler has exited, the other one is blocked in `recv` on an empty stream. -/
def Stranded (s : State) : Prop :=
  s.thread1.Exited ∧ s.thread2.pc = .waiting ∧ s.stream1 = [] ∨
  s.thread2.Exited ∧ s.thread1.pc = .waiting ∧ s.stream2 = []

/-- `thread1_handler` has passed its check of `flag` and not received yet. -/
def Asks (pc : Pc) : Prop := pc = .send ∨ pc = .call ∨ pc = .waiting

/-- `thread2_handler` has passed its check of `flag` and not received yet. -/
def Listens (pc : Pc) : Prop := pc = .call ∨ pc = .waiting

instance : DecidablePred Asks := fun _ => inferInstanceAs (Decidable (_ ∨ _))
instance : DecidablePred Listens := fun _ => inferInstanceAs (Decidable (_ ∨ _))

/-- A handler leaves after a signal only where the other one has bytes to receive, if it is
    going to receive at all. -/
def LeavesServed (s : State) : Action → Prop
  | .head1 => s.flag = true → Listens s.thread2.pc → s.stream1 ≠ []
  | .head2 => s.flag = true → Asks s.thread1.pc → s.stream2 ≠ []
  | _ => True

/-! ## What a step can do -/

theorem flag_act (hf : s.flag = true) : (act T a s).flag = true := by
  cases a with
  | sigint => rfl
  | _ => exact hf

/-- A handler has passed its check of `flag` and not received yet. -/
def Needs : Role → Pc → Prop
  | .first => Asks
  | .second => Listens

theorem leavesServed_headOf : LeavesServed s (headOf r) ↔
    (s.flag = true → Needs r.other (s.thread r.other).pc → s.stream r ≠ []) := by
  cases r <;> exact Iff.rfl

namespace Moves

variable {flag : Bool} {n : ℕ} {t : ℕ → Record} {h h' : Handler (List UInt8)}
  {own own' peer peer' : List UInt8}

/-- A handler takes nothing out of the stream that it sends to. -/
theorem own_ne_nil (hm : Moves r flag n t h own peer h' own' peer') (hne : own ≠ []) :
    own' ≠ [] := by
  cases hm with
  | send => exact List.append_ne_nil_of_left_ne_nil hne _
  | _ => exact hne

theorem needs (hm : Moves r flag n t h own peer h' own' peer') (hneeds : Needs r h'.pc) :
    (Needs r h.pc ∧ peer' = peer) ∨ h.pc = .head ∧ flag = false := by
  cases hm with
  | head hpc =>
    cases flag with
    | false => exact Or.inr ⟨hpc, rfl⟩
    | true => cases r <;> simp [Needs, Asks, Listens, checkHead] at hneeds
  | send hpc =>
    cases r with
    | first => exact Or.inl ⟨Or.inl hpc, rfl⟩
    | second => simp [Needs, Listens, Handler.send, next] at hneeds
  | call hpc =>
    refine Or.inl ⟨?_, rfl⟩
    cases r <;> simp [Needs, Asks, Listens, hpc]
  | recv | interrupt | count | log =>
    cases r <;> simp [Needs, Asks, Listens, recvInto, Handler.goto, Handler.count,
      Handler.writeLog, next] at hneeds

end Moves

/-- What a handler receives from is emptied by its own steps only. -/
theorem stream_act (hg : guard s a) (ha : ¬ a.By r) (hne : s.stream r.other ≠ []) :
    (act T a s).stream r.other ≠ [] := by
  by_cases hother : a.By r.other
  · exact (act_moves (T := T) hg hother).own_ne_nil hne
  · cases r <;> cases a <;>
      first | exact absurd trivial ha | exact absurd trivial hother | exact hne

/-- A handler is between its check and its receive only if it was before, and its stream has
    not been emptied meanwhile, or if it has just seen no `flag`. -/
theorem needs_of_act (hg : guard s a) (hneeds : Needs r ((act T a s).thread r).pc) :
    (Needs r (s.thread r).pc ∧
        (s.stream r.other ≠ [] → (act T a s).stream r.other ≠ [])) ∨
      a = headOf r ∧ s.flag = false := by
  by_cases ha : a.By r
  · rcases (act_moves (T := T) hg ha).needs hneeds with ⟨hold, hpeer⟩ | ⟨hpc, hf⟩
    · exact Or.inl ⟨hold, fun hne => hpeer ▸ hne⟩
    · exact Or.inr ⟨eq_headOf hg ha hpc, hf⟩
  · exact Or.inl ⟨thread_act (T := T) ha ▸ hneeds, stream_act hg ha⟩

/-! ## Handlers that leave with the other one served -/

/-- A handler that was killed has left no other one without bytes. -/
def Served (s : State) : Prop :=
  ∀ r, (s.thread r).pc = .killed →
    s.flag = true ∧ (Needs r.other (s.thread r.other).pc → s.stream r ≠ [])

theorem Served.step (h : Served s) (hg : guard s a) (ha : LeavesServed s a) :
    Served (act T a s) := by
  intro r hk
  -- `flag` is set now, so the other handler cannot have passed its check in this step
  have hleave : s.flag = true ∧ (Needs r.other (s.thread r.other).pc → s.stream r ≠ []) := by
    rcases killed_of_act hg hk with hold | ⟨rfl, hf⟩
    · exact h r hold
    · exact ⟨hf, leavesServed_headOf.mp ha hf⟩
  refine ⟨flag_act hleave.1, fun hneeds => ?_⟩
  rcases needs_of_act hg hneeds with ⟨hneeds, hbytes⟩ | ⟨-, hf⟩
  · rw [Role.other_other] at hbytes
    exact hbytes (hleave.2 hneeds)
  · exact absurd hleave.1 (by simp [hf])

theorem served_of_reachable (hs : ((uninterrupted T).restrict LeavesServed).Reachable s) :
    Served s := by
  refine hs.invariant (I := Served) ?_ ?_
  · rintro s ⟨buff1, buff2, -, -, rfl⟩ (_ | _) h <;> cases h
  · rintro s a - h ⟨⟨hg, -⟩, ha⟩
    exact h.step hg ha

/-- A handler that has made all its rounds strands nobody, and a killed one only where it has
    left the other one without bytes. -/
theorem not_stranded_of_served (hs : ((uninterrupted T).restrict LeavesServed).Reachable s) :
    ¬ Stranded s := by
  have hserved := served_of_reachable hs
  have hc := Counts.of_reachable hs.of_restrict
  have hi := Streams.of_reachable hs.of_restrict.of_restrict
  rintro (⟨hkilled | hdone, hwait, hempty⟩ | ⟨hkilled | hdone, hwait, hempty⟩)
  · exact (hserved .first hkilled).2 (Or.inr hwait) hempty
  · exact hc.stream_ne_nil_of_done (r := .first) hi hdone hwait hempty
  · exact (hserved .second hkilled).2 (Or.inr (Or.inr hwait)) hempty
  · exact hc.stream_ne_nil_of_done (r := .second) hi hdone hwait hempty

/-! ## A handler that leaves too early -/

/-- A run leads to a state in which a handler waits for ever. -/
def Strands (T : Tables) (s : State) : Prop := (uninterrupted T).CanReach Stranded s

theorem strands_of_waiting1 (h2 : s.thread2.pc = .killed) (h1 : s.thread1.pc = .waiting)
    (hempty : s.stream2 = []) : Strands T s :=
  .of_now (Or.inr ⟨Or.inl h2, h1, hempty⟩)

theorem strands_of_call1 (h2 : s.thread2.pc = .killed) (h1 : s.thread1.pc = .call)
    (hempty : s.stream2 = []) : Strands T s :=
  .step .call1 ⟨h1, nofun, nofun⟩ (strands_of_waiting1 h2 rfl hempty)

theorem strands_of_asks (h2 : s.thread2.pc = .killed) (h1 : Asks s.thread1.pc)
    (hempty : s.stream2 = []) : Strands T s := by
  rcases h1 with h1 | h1 | h1
  · exact .step .send1 ⟨h1, nofun, nofun⟩ (strands_of_call1 h2 rfl hempty)
  · exact strands_of_call1 h2 h1 hempty
  · exact strands_of_waiting1 h2 h1 hempty

theorem strands_of_waiting2 (h1 : s.thread1.pc = .killed) (h2 : s.thread2.pc = .waiting)
    (hempty : s.stream1 = []) : Strands T s :=
  .of_now (Or.inl ⟨Or.inl h1, h2, hempty⟩)

theorem strands_of_listens (h1 : s.thread1.pc = .killed) (h2 : Listens s.thread2.pc)
    (hempty : s.stream1 = []) : Strands T s := by
  rcases h2 with h2 | h2
  · exact .step .call2 ⟨h2, nofun, nofun⟩ (strands_of_waiting2 h1 rfl hempty)
  · exact strands_of_waiting2 h1 h2 hempty

theorem strands_of_not_leavesServed (ha : ¬ LeavesServed s a) : Strands T (act T a s) := by
  cases a with
  | head1 =>
    simp only [LeavesServed, not_forall, not_not] at ha
    obtain ⟨hf, hlistens, hempty⟩ := ha
    exact strands_of_listens (if_pos hf) hlistens hempty
  | head2 =>
    simp only [LeavesServed, not_forall, not_not] at ha
    obtain ⟨hf, hasks, hempty⟩ := ha
    exact strands_of_asks (if_pos hf) hasks hempty
  | _ => exact absurd trivial ha

/-! ## How a run ends -/

/-- Nothing can happen any more where both handlers have exited, and where one is
    stranded. -/
theorem halted_iff (hs : (uninterrupted T).Reachable s) :
    Halted T s ↔ s.thread1.Exited ∧ s.thread2.Exited ∨ Stranded s := by
  have hc := Counts.of_reachable hs
  have hi := Streams.of_reachable hs.of_restrict
  constructor
  · intro hh
    rcases hc.exited_or_empty hh .first with h1 | ⟨h1, hempty2⟩
    · rcases hc.exited_or_empty hh .second with h2 | ⟨h2, hempty1⟩
      · exact Or.inl ⟨h1, h2⟩
      · exact Or.inr (Or.inl ⟨h1, h2, hempty1⟩)
    · rcases hc.exited_or_empty hh .second with h2 | ⟨h2, hempty1⟩
      · exact Or.inr (Or.inr ⟨h2, h1, hempty2⟩)
      · exact absurd hempty1 (hc.stream_ne_nil hi h1 h2 hempty2)
  · have hblocked {stream : List UInt8} {len : ℕ} (hempty : stream = []) :
        ¬ CanReturn stream len := by
      rintro ⟨hpos, -, hle⟩
      subst hempty
      exact absurd hpos (Nat.not_lt.mpr hle)
    rintro (⟨h1, h2⟩ | ⟨h1, h2, hempty⟩ | ⟨h2, h1, hempty⟩) a ⟨hg, hu⟩
    · cases a <;> simp_all [program, guard, Handler.Exited]
    · cases a <;> simp_all [program, guard, Handler.Exited, Uninterrupted]
    · cases a <;> simp_all [program, guard, Handler.Exited, Uninterrupted]

/-- Signals apart, a run in which no `recv` is interrupted has at most `12 n + 2` steps. -/
theorem steps_le {s' : State} {as : List Action} (h0 : (uninterrupted T).init s)
    (hrun : (uninterrupted T).Run s as s') :
    as.countP (fun a => a ≠ .sigint) ≤ 12 * T.n + 2 := by
  obtain ⟨buff1, buff2, hlen1, hlen2, rfl⟩ := h0
  have hstep (s : State) (a : Action) (hc : Counts T s) (hg : (uninterrupted T).guard s a) :
      Counts T ((uninterrupted T).act a s) ∧
        rank T ((uninterrupted T).act a s) + (if decide (a ≠ .sigint) then 1 else 0) ≤
          rank T s := by
    by_cases hq : a = .sigint
    · subst hq
      exact ⟨⟨hc.asks, hc.answers⟩, le_rfl⟩
    · obtain ⟨hc', hlt⟩ := hc.step hg.1 hq hg.2
      refine ⟨hc', ?_⟩
      rw [if_pos (by simpa using hq)]
      exact hlt
  have hle := Program.Run.countP_add_le hstep hrun (Counts.start T buff1 buff2)
  have hstart : rank T (start buff1 buff2) = 12 * T.n + 2 := by
    simp only [rank, askRank, Handler.replyRank, start, Handler.start]
    omega
  omega

/-- After at most `12 n + 2` steps other than signals both handlers have exited or one of them
    waits for ever. Nobody does where the handlers leave served, and a handler that leaves in
    another way can always be the start of a run after which the other one does. -/
theorem shutdown_serves (T : Tables) :
    (∀ s s' as, (uninterrupted T).init s → (uninterrupted T).Run s as s' →
      as.countP (fun a => a ≠ .sigint) ≤ 12 * T.n + 2 ∧
      (Halted T s' ↔ s'.thread1.Exited ∧ s'.thread2.Exited ∨ Stranded s')) ∧
    (∀ s, ((uninterrupted T).restrict LeavesServed).Reachable s → ¬ Stranded s) ∧
    ∀ s a, (uninterrupted T).Reachable s → (uninterrupted T).guard s a →
      ¬ LeavesServed s a → Strands T (act T a s) := by
  refine ⟨fun s s' as h0 hrun => ⟨steps_le h0 hrun, ?_⟩,
    fun s hs => not_stranded_of_served hs, fun s a _ _ ha => strands_of_not_leavesServed ha⟩
  have hinit : (uninterrupted T).Reachable s := .init h0
  exact halted_iff (hinit.run hrun)

end Apes.Sockets
