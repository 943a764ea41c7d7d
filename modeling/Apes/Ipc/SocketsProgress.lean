import Apes.Ipc.Rounds
import Apes.Ipc.SocketsStreams

/-!
# The rounds of `sockets.c`

A `recv` that returns part of a record leaves the rest for the next one, so that a handler
finds bytes to receive earlier than it should, and never later. Without a signal nobody
waits for bytes that do not come.
-/

namespace Apes.Sockets

open Apes

variable {T : Tables} {s : State} {a : Action} {r : Role} {n : ℕ}

/-! ## The invariant -/

/-- The signal does not interrupt a `recv`. -/
def Uninterrupted (a : Action) : Prop := a ≠ .interrupt1 ∧ a ≠ .interrupt2

instance : DecidablePred Uninterrupted := fun _ => inferInstanceAs (Decidable (_ ∧ _))

/-- The runs in which `SIGINT` is delivered to `main`. -/
def uninterrupted (T : Tables) : Program State Action :=
  (program T).restrict fun _ a => Uninterrupted a

instance (T : Tables) (s : State) (a : Action) : Decidable ((uninterrupted T).guard s a) :=
  inferInstanceAs (Decidable (guard s a ∧ Uninterrupted a))

/-- Nothing can happen any more but a signal. -/
def Halted (T : Tables) (s : State) : Prop := ∀ a, (uninterrupted T).guard s a → a = .sigint

/-- How a handler that has not exited goes on; its `recv` returns one byte. -/
def ownStep : Role → Pc → Action
  | .first, .head => .head1
  | .first, .send => .send1
  | .first, .call => .call1
  | .first, .waiting => .recv1 1
  | .first, .count => .count1
  | .first, .log => .log1
  | .second, .head => .head2
  | .second, .call => .call2
  | .second, .waiting => .recv2 1
  | .second, .log => .log2
  | .second, .send => .send2
  | .second, .count => .count2
  | _, .close | _, .closeNext | _, .killed | _, .done => .sigint

theorem uninterrupted_ownStep (r : Role) (pc : Pc) : Uninterrupted (ownStep r pc) := by
  cases r <;> cases pc <;> exact ⟨nofun, nofun⟩

theorem Halted.not_guard (hh : Halted T s) (a : Action) (hq : a ≠ .sigint)
    (hu : Uninterrupted a) : ¬ guard s a :=
  fun hg => hq (hh a ⟨hg, hu⟩)

/-- What `thread1_handler` has received and logged in its rounds. -/
def AskRounds (n : ℕ) (h : Handler (List UInt8)) : Prop :=
  match h.pc with
  | .head => h.got.length = h.i ∧ h.logged.length = h.i ∧ h.i ≤ n
  | .send | .call | .waiting => h.got.length = h.i ∧ h.logged.length = h.i ∧ h.i < n
  | .count => h.got.length = h.i + 1 ∧ h.logged.length = h.i ∧ h.i < n
  | .log => h.got.length = h.i ∧ h.logged.length + 1 = h.i ∧ h.i ≤ n
  | .done => h.got.length = h.i ∧ h.logged.length = h.i ∧ h.i = n
  | .killed => True
  | .close | .closeNext => False

/-- What `thread2_handler` has received and logged in its rounds. -/
def AnswerRounds (n : ℕ) (h : Handler (List UInt8)) : Prop :=
  match h.pc with
  | .head => h.got.length = h.i ∧ h.logged.length = h.i ∧ h.i ≤ n
  | .call | .waiting => h.got.length = h.i ∧ h.logged.length = h.i ∧ h.i < n
  | .log => h.got.length = h.i + 1 ∧ h.logged.length = h.i ∧ h.i < n
  | .send | .count => h.got.length = h.i + 1 ∧ h.logged.length = h.i + 1 ∧ h.i < n
  | .done => h.got.length = h.i ∧ h.logged.length = h.i ∧ h.i = n
  | .killed => True
  | .close | .closeNext => False

/-- How many steps `thread1_handler` has still to make. -/
def askRank (n : ℕ) (h : Handler (List UInt8)) : ℕ :=
  match h.pc with
  | .head => 6 * (n - h.i) + 1
  | .send => 6 * (n - h.i)
  | .call => 6 * (n - h.i) - 1
  | .waiting => 6 * (n - h.i) - 2
  | .count => 6 * (n - h.i) - 3
  | .log => 6 * (n - h.i) + 2
  | .close | .closeNext | .killed | .done => 0

theorem asks_checkHead {n : ℕ} {h : Handler (List UInt8)} (hpc : h.pc = .head)
    (hcount : h.got.length = h.i ∧ h.logged.length = h.i ∧ h.i ≤ n) (flag : Bool) :
    AskRounds n (checkHead h flag n .send) ∧
      askRank n (checkHead h flag n .send) < askRank n h := by
  unfold checkHead
  cases flag with
  | true =>
    simp only [AskRounds, askRank, if_true, hpc]
    exact ⟨trivial, Nat.succ_pos _⟩
  | false =>
    by_cases hn : h.i = n
    · simp only [AskRounds, askRank, Bool.false_eq_true, if_false, if_pos hn, hpc]
      omega
    · simp only [AskRounds, askRank, Bool.false_eq_true, if_false, if_neg hn, hpc]
      omega

theorem answers_checkHead {n : ℕ} {h : Handler (List UInt8)} (hpc : h.pc = .head)
    (hcount : h.got.length = h.i ∧ h.logged.length = h.i ∧ h.i ≤ n) (flag : Bool) :
    AnswerRounds n (checkHead h flag n .call) ∧
      (checkHead h flag n .call).replyRank n < h.replyRank n := by
  unfold checkHead
  cases flag with
  | true =>
    simp only [AnswerRounds, Handler.replyRank, if_true, hpc]
    exact ⟨trivial, Nat.succ_pos _⟩
  | false =>
    by_cases hn : h.i = n
    · simp only [AnswerRounds, Handler.replyRank, Bool.false_eq_true, if_false, if_pos hn, hpc]
      omega
    · simp only [AnswerRounds, Handler.replyRank, Bool.false_eq_true, if_false, if_neg hn, hpc]
      omega

/-- The rounds of both handlers, as long as no `recv` is interrupted. -/
structure Counts (T : Tables) (s : State) : Prop where
  asks : AskRounds T.n s.thread1
  answers : AnswerRounds T.n s.thread2

/-- The rank of both handlers. -/
def rank (T : Tables) (s : State) : ℕ := askRank T.n s.thread1 + s.thread2.replyRank T.n

namespace Counts

theorem start (T : Tables) (buff1 buff2 : List UInt8) : Counts T (start buff1 buff2) :=
  ⟨⟨rfl, rfl, Nat.zero_le _⟩, ⟨rfl, rfl, Nat.zero_le _⟩⟩

/-- A step of `thread1_handler` that keeps its counters and makes its rank fall. -/
theorem ask (hc : Counts T s) {h' : Handler (List UInt8)} {stream1 stream2 : List UInt8}
    (h : AskRounds T.n h' ∧ askRank T.n h' < askRank T.n s.thread1) :
    Counts T ⟨s.flag, stream1, stream2, h', s.thread2⟩ ∧
      rank T ⟨s.flag, stream1, stream2, h', s.thread2⟩ < rank T s :=
  ⟨⟨h.1, hc.answers⟩, Nat.add_lt_add_right h.2 _⟩

/-- A step of `thread2_handler` that keeps its counters and makes its rank fall. -/
theorem answer (hc : Counts T s) {h' : Handler (List UInt8)} {stream1 stream2 : List UInt8}
    (h : AnswerRounds T.n h' ∧ h'.replyRank T.n < s.thread2.replyRank T.n) :
    Counts T ⟨s.flag, stream1, stream2, s.thread1, h'⟩ ∧
      rank T ⟨s.flag, stream1, stream2, s.thread1, h'⟩ < rank T s :=
  ⟨⟨hc.asks, h.1⟩, Nat.add_lt_add_left h.2 _⟩

theorem step (hc : Counts T s) (hg : guard s a) (hq : a ≠ .sigint) (hu : Uninterrupted a) :
    Counts T (act T a s) ∧ rank T (act T a s) < rank T s := by
  have hasks := hc.asks
  have hanswers := hc.answers
  cases a with
  | sigint => exact absurd rfl hq
  | head1 =>
    have hpc : s.thread1.pc = .head := hg
    simp only [AskRounds, hpc] at hasks
    exact hc.ask (asks_checkHead hpc hasks _)
  | send1 =>
    have hpc : s.thread1.pc = .send := hg
    simp only [AskRounds, hpc] at hasks
    refine hc.ask ?_
    simp only [AskRounds, askRank, Handler.send, hpc]
    omega
  | call1 =>
    have hpc : s.thread1.pc = .call := hg
    simp only [AskRounds, hpc] at hasks
    refine hc.ask ?_
    simp only [AskRounds, askRank, Handler.goto, hpc]
    omega
  | recv1 len =>
    have hpc : s.thread1.pc = .waiting := hg.1
    simp only [AskRounds, hpc] at hasks
    refine hc.ask ?_
    simp only [AskRounds, askRank, recvInto, Pipes.readInto, Handler.goto, hpc,
      List.length_append, List.length_singleton]
    omega
  | interrupt1 => exact absurd rfl hu.1
  | count1 =>
    have hpc : s.thread1.pc = .count := hg
    simp only [AskRounds, hpc] at hasks
    refine hc.ask ?_
    simp only [AskRounds, askRank, Handler.count, hpc]
    omega
  | log1 =>
    have hpc : s.thread1.pc = .log := hg
    simp only [AskRounds, hpc] at hasks
    refine hc.ask ?_
    simp only [AskRounds, askRank, Handler.writeLog, hpc, List.length_append,
      List.length_singleton]
    omega
  | head2 =>
    have hpc : s.thread2.pc = .head := hg
    simp only [AnswerRounds, hpc] at hanswers
    exact hc.answer (answers_checkHead hpc hanswers _)
  | call2 =>
    have hpc : s.thread2.pc = .call := hg
    simp only [AnswerRounds, hpc] at hanswers
    refine hc.answer ?_
    simp only [AnswerRounds, Handler.replyRank, Handler.goto, hpc]
    omega
  | recv2 len =>
    have hpc : s.thread2.pc = .waiting := hg.1
    simp only [AnswerRounds, hpc] at hanswers
    refine hc.answer ?_
    simp only [AnswerRounds, Handler.replyRank, recvInto, Pipes.readInto, Handler.goto,
      hpc, List.length_append, List.length_singleton]
    omega
  | interrupt2 => exact absurd rfl hu.2
  | log2 =>
    have hpc : s.thread2.pc = .log := hg
    simp only [AnswerRounds, hpc] at hanswers
    refine hc.answer ?_
    simp only [AnswerRounds, Handler.replyRank, Handler.writeLog, hpc, List.length_append,
      List.length_singleton]
    omega
  | send2 =>
    have hpc : s.thread2.pc = .send := hg
    simp only [AnswerRounds, hpc] at hanswers
    refine hc.answer ?_
    simp only [AnswerRounds, Handler.replyRank, Handler.send, hpc]
    omega
  | count2 =>
    have hpc : s.thread2.pc = .count := hg
    simp only [AnswerRounds, hpc] at hanswers
    refine hc.answer ?_
    simp only [AnswerRounds, Handler.replyRank, Handler.count, hpc]
    omega

theorem of_reachable (hs : (uninterrupted T).Reachable s) : Counts T s := by
  refine hs.invariant ?_ fun s a _ hc hg => ?_
  · rintro _ ⟨buff1, buff2, -, -, rfl⟩
    exact start T buff1 buff2
  · by_cases hq : a = .sigint
    · subst hq
      exact ⟨hc.asks, hc.answers⟩
    · exact (hc.step hg.1 hq hg.2).1

theorem not_closing (hc : Counts T s) (r : Role) :
    (s.thread r).pc ≠ .close ∧ (s.thread r).pc ≠ .closeNext := by
  have hasks := hc.asks
  have hanswers := hc.answers
  cases r <;> constructor <;> intro hpc <;> simp only [State.thread] at hpc <;>
    simp only [AskRounds, AnswerRounds, hpc] at hasks hanswers

theorem got_lt (hc : Counts T s) (hpc : (s.thread r).pc = .waiting) :
    (s.thread r).got.length < T.n := by
  have hasks := hc.asks
  have hanswers := hc.answers
  cases r <;> simp only [State.thread] at hpc ⊢ <;>
    simp only [AskRounds, AnswerRounds, hpc] at hasks hanswers <;> omega

/-- Where a handler cannot go on, it has exited or waits at an empty stream. -/
theorem exited_or_empty (hc : Counts T s) (hh : Halted T s) (r : Role) :
    (s.thread r).Exited ∨ (s.thread r).pc = .waiting ∧ s.stream r.other = [] := by
  have hnot := hc.not_closing r
  generalize hpc : (s.thread r).pc = pc at hnot ⊢
  have hstuck : ¬ guard s (ownStep r pc) ∨ ownStep r pc = .sigint := by
    by_contra hgo
    rw [not_or, not_not] at hgo
    exact hh.not_guard _ hgo.2 (uninterrupted_ownStep r pc) hgo.1
  cases pc with
  | killed => exact Or.inl (Or.inl hpc)
  | done => exact Or.inl (Or.inr hpc)
  | close => exact absurd rfl hnot.1
  | closeNext => exact absurd rfl hnot.2
  | waiting =>
    refine Or.inr ⟨rfl, List.eq_nil_of_length_eq_zero ?_⟩
    by_contra hlen
    have hcan : CanReturn (s.stream r.other) 1 := ⟨Nat.one_pos, by decide, by omega⟩
    cases r <;> exact hstuck.elim (absurd ⟨hpc, hcan⟩) nofun
  | head | send | call | count | log => cases r <;> exact hstuck.elim (absurd hpc) nofun

section Waiting

variable (hc : Counts T s) (hi : Streams T s)

include hc hi

/-- A handler that has made all its rounds has left enough bytes for the other one. -/
theorem stream_ne_nil_of_done (hdone : (s.thread r).pc = .done)
    (hwait : (s.thread r.other).pc = .waiting) : s.stream r ≠ [] := by
  intro hempty
  have hgot := hc.got_lt hwait
  have hsends := hi.sends r
  have hbytes := hi.stream r
  rw [hempty] at hbytes
  have hle := hbytes.le_of_nil
  have hrounds : (s.thread r).i = T.n := by
    have hasks := hc.asks
    have hanswers := hc.answers
    cases r <;> simp only [State.thread] at hdone ⊢ <;>
      simp only [AskRounds, AnswerRounds, hdone] at hasks hanswers <;> omega
  have hahead : ahead r .done = 0 := by cases r <;> rfl
  rw [Sends, hdone, hahead] at hsends
  omega

/-- The handlers never wait for each other. -/
theorem stream_ne_nil (h1 : s.thread1.pc = .waiting) (h2 : s.thread2.pc = .waiting)
    (hempty2 : s.stream2 = []) : s.stream1 ≠ [] := by
  intro hempty1
  have hasks := hc.asks
  have hanswers := hc.answers
  have hsends1 : Sends .first s.thread1 := hi.sends .first
  have hsends2 : Sends .second s.thread2 := hi.sends .second
  have hbytes1 : Conserved T.t1 s.thread1.sent s.thread2.got s.stream1 := hi.stream .first
  have hbytes2 : Conserved T.t2 s.thread2.sent s.thread1.got s.stream2 := hi.stream .second
  rw [hempty1] at hbytes1
  rw [hempty2] at hbytes2
  have hle1 := hbytes1.le_of_nil
  have hle2 := hbytes2.le_of_nil
  simp only [AskRounds, Sends, ahead, h1] at hasks hsends1
  simp only [AnswerRounds, Sends, ahead, h2] at hanswers hsends2
  omega

end Waiting

end Counts

/-- The check of `flag` by a handler. -/
def headOf : Role → Action
  | .first => .head1
  | .second => .head2

theorem eq_headOf (hg : guard s a) (ha : a.By r) (hpc : (s.thread r).pc = .head) :
    a = headOf r := by
  cases r <;> simp only [State.thread] at hpc <;>
    cases a <;> first | rfl | exact ha.elim | simp [guard, hpc] at hg

theorem Moves.killed {flag : Bool} {t : ℕ → Record} {h h' : Handler (List UInt8)}
    {own own' peer peer' : List UInt8} (hm : Moves r flag n t h own peer h' own' peer')
    (hk : h'.pc = .killed) : h.pc = .head ∧ flag = true := by
  cases hm with
  | head hpc =>
    cases flag with
    | true => exact ⟨hpc, rfl⟩
    | false => by_cases hn : h.i = n <;> cases r <;> simp [checkHead, hn, next] at hk
  | call => cases hk
  | send | recv | interrupt | count | log => cases r <;> cases hk

/-- A handler is killed only if it was before, or if it has just seen `flag`. -/
theorem killed_of_act (hg : guard s a) (hk : ((act T a s).thread r).pc = .killed) :
    (s.thread r).pc = .killed ∨ a = headOf r ∧ s.flag = true := by
  by_cases ha : a.By r
  · obtain ⟨hpc, hf⟩ := (act_moves (T := T) hg ha).killed hk
    exact Or.inr ⟨eq_headOf hg ha hpc, hf⟩
  · exact Or.inl (thread_act (T := T) ha ▸ hk)

/-! ## Without a signal -/

structure Rounds (T : Tables) (s : State) : Prop extends Counts T s where
  flag : s.flag = false
  unkilled (r : Role) : (s.thread r).pc ≠ .killed

namespace Rounds

theorem start (T : Tables) (buff1 buff2 : List UInt8) : Rounds T (start buff1 buff2) :=
  ⟨Counts.start T buff1 buff2, rfl, fun r => by cases r <;> exact nofun⟩

theorem uninterrupted (hr : Rounds T s) (hg : guard s a) : Uninterrupted a := by
  have hflag := hr.flag
  constructor
  · rintro rfl
    exact absurd hg.2 (by simp [hflag])
  · rintro rfl
    exact absurd hg.2 (by simp [hflag])

theorem step (hr : Rounds T s) (hg : guard s a) (hq : a ≠ .sigint) :
    Rounds T (act T a s) ∧ rank T (act T a s) < rank T s := by
  obtain ⟨hc, hlt⟩ := hr.toCounts.step hg hq (hr.uninterrupted hg)
  have hflag := hr.flag
  refine ⟨⟨hc, ?_, fun r h => ?_⟩, hlt⟩
  · cases a with
    | sigint => exact absurd rfl hq
    | _ => exact hflag
  · rcases killed_of_act hg h with hold | ⟨-, hset⟩
    · exact hr.unkilled r hold
    · exact absurd hset (by simp [hflag])

theorem of_reachable (hs : (quiet T).Reachable s) : Rounds T s := by
  refine hs.invariant ?_ fun _ _ _ hr hg => (hr.step hg.1 hg.2).1
  rintro _ ⟨buff1, buff2, -, -, rfl⟩
  exact start T buff1 buff2

/-- Without a signal the handlers cannot stop before both have made all their rounds. -/
theorem done_of_stuck (hr : Rounds T s) (hi : Streams T s) (hstuck : (quiet T).Stuck s) :
    s.thread1.pc = .done ∧ s.thread2.pc = .done := by
  have hc := hr.toCounts
  have hh : Halted T s := by
    intro a hg
    by_contra hq
    exact hstuck a ⟨hg.1, hq⟩
  have hdone (r : Role) (h : (s.thread r).Exited) : (s.thread r).pc = .done :=
    h.resolve_left (hr.unkilled r)
  rcases hc.exited_or_empty hh .first with h1 | ⟨h1, hempty2⟩
  · rcases hc.exited_or_empty hh .second with h2 | ⟨h2, hempty1⟩
    · exact ⟨hdone .first h1, hdone .second h2⟩
    · exact absurd hempty1 (hc.stream_ne_nil_of_done (r := .first) hi (hdone .first h1) h2)
  · rcases hc.exited_or_empty hh .second with h2 | ⟨h2, hempty1⟩
    · exact absurd hempty2 (hc.stream_ne_nil_of_done (r := .second) hi (hdone .second h2) h1)
    · exact absurd hempty1 (hc.stream_ne_nil hi h1 h2 hempty2)

end Rounds

/-- A handler that has made all its rounds. -/
def AllRounds (n : ℕ) (h : Handler (List UInt8)) : Prop :=
  h.pc = .done ∧ h.sent = n ∧ h.got.length = n ∧ h.logged.length = n

/-- Without a signal, whatever part of a record each `recv` returns, the handlers make at most
    `12 n + 2` steps, and they do not stop before each has sent, received and logged `n`
    times. -/
theorem rounds_complete (T : Tables) {s s' : State} {as : List Action}
    (h0 : (quiet T).init s) (hrun : (quiet T).Run s as s') :
    as.length ≤ 12 * T.n + 2 ∧
      ((quiet T).Stuck s' → AllRounds T.n s'.thread1 ∧ AllRounds T.n s'.thread2) := by
  have hinit : (quiet T).Reachable s := .init h0
  constructor
  · have hle := Program.Run.length_add_le (V := rank T)
      (fun _ _ hs hg => ((Rounds.of_reachable hs).step hg.1 hg.2).2) hinit hrun
    obtain ⟨buff1, buff2, -, -, rfl⟩ := h0
    have hstart : rank T (start buff1 buff2) = 12 * T.n + 2 := by
      simp only [rank, askRank, Handler.replyRank, start, Handler.start]
      omega
    omega
  · intro hstuck
    have hreach := hinit.run hrun
    have hr := Rounds.of_reachable hreach
    have hi := Streams.of_reachable hreach.of_restrict
    obtain ⟨hdone1, hdone2⟩ := hr.done_of_stuck hi hstuck
    have hasks := hr.asks
    have hanswers := hr.answers
    have hsends1 : Sends .first s'.thread1 := hi.sends .first
    have hsends2 : Sends .second s'.thread2 := hi.sends .second
    simp only [AskRounds, Sends, ahead, hdone1] at hasks hsends1
    simp only [AnswerRounds, Sends, ahead, hdone2] at hanswers hsends2
    exact ⟨⟨hdone1, by omega, by omega, by omega⟩, ⟨hdone2, by omega, by omega, by omega⟩⟩

/-- One round, in which each `recv` returns one byte. -/
def oneByteRound : List Action :=
  [.head1, .send1, .head2, .call2, .recv2 1, .log2, .send2, .count2, .head2, .call1, .recv1 1,
    .count1, .log1, .head1]

theorem rounds_complete_one_byte :
    ∃ s, (quiet ⟨1, fun _ => default, fun _ => default⟩).exec oneByteRound
        (start (List.replicate recordSize 1) (List.replicate recordSize 1)) = some s ∧
      oneByteRound.length ≤ 14 ∧ AllRounds 1 s.thread1 ∧ AllRounds 1 s.thread2 := by
  refine ⟨_, rfl, ?_⟩
  have h := rounds_complete ⟨1, fun _ => default, fun _ => default⟩
    ⟨List.replicate recordSize 1, List.replicate recordSize 1, List.length_replicate,
      List.length_replicate, rfl⟩
    (Program.run_of_exec _ oneByteRound _ rfl)
  refine ⟨h.1, h.2 ?_⟩
  rintro a ⟨hg, hquiet⟩
  cases a with
  | sigint => exact hquiet rfl
  | recv1 | interrupt1 | recv2 | interrupt2 => cases hg.1
  | _ => cases hg

end Apes.Sockets
