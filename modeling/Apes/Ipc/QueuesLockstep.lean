import Apes.Ipc.Queues
import Apes.Ipc.Rounds
import Apes.Lib.Fifo
import Apes.Lib.Handshake

/-!
# The lock-step of `queues.c`

Without a signal and without a failing call both queues deliver in order, and the
four calls per round follow the request-reply handshake. The counters `i` do not
follow it: `thread1_handler` counts a round before it has the acknowledgement,
`thread2_handler` after it has sent it.
-/

namespace Apes.Queues

open Apes Handler

variable {T : Tables} {s : State} {a : Action}

/-- What holds in every state of a run without a signal and a failing call. -/
structure Inv (T : Tables) (s : State) : Prop where
  flag : s.flag = false
  -- main closes the queues when both handlers are done
  main : s.main = .join ∧ s.mqdes1.IsOpen ∧ s.mqdes2.IsOpen ∨
    s.thread1.pc = .done ∧ s.thread2.pc = .done
  requester : s.thread1.Requester T.n
  replier : s.thread2.Replier T.n
  fifo1 : Fifo T.t1 s.thread1.sent s.thread2.got s.mqdes1.msgs
  fifo2 : Fifo T.t2 s.thread2.sent s.thread1.got s.mqdes2.msgs

namespace Inv

theorem start (T : Tables) (buff1 buff2 : Record) : Inv T (start buff1 buff2) where
  flag := rfl
  main := Or.inl ⟨rfl, rfl, rfl⟩
  requester := Requester.start T.n buff1
  replier := Replier.start T.n buff2
  fifo1 := Fifo.empty T.t1
  fifo2 := Fifo.empty T.t2

/-- While `thread1_handler` runs, main waits and the queues are open. -/
theorem opened1 (hi : Inv T s) (h : s.thread1.pc ≠ .done) :
    s.main = .join ∧ s.mqdes1.IsOpen ∧ s.mqdes2.IsOpen :=
  hi.main.resolve_right fun hd => h hd.1

theorem opened2 (hi : Inv T s) (h : s.thread2.pc ≠ .done) :
    s.main = .join ∧ s.mqdes1.IsOpen ∧ s.mqdes2.IsOpen :=
  hi.main.resolve_right fun hd => h hd.2

/-- A step of `thread1_handler` that touches no queue. -/
theorem local1 (hi : Inv T s) {h' : Handler Record} (hpc : s.thread1.pc ≠ .done)
    (hr : h'.Requester T.n) (hsent : h'.sent = s.thread1.sent)
    (hgot : h'.got = s.thread1.got) : Inv T { s with thread1 := h' } where
  flag := hi.flag
  main := Or.inl (hi.opened1 hpc)
  requester := hr
  replier := hi.replier
  fifo1 := by simpa only [hsent] using hi.fifo1
  fifo2 := by simpa only [hgot] using hi.fifo2

/-- A step of `thread2_handler` that touches no queue. -/
theorem local2 (hi : Inv T s) {h' : Handler Record} (hpc : s.thread2.pc ≠ .done)
    (hr : h'.Replier T.n) (hsent : h'.sent = s.thread2.sent)
    (hgot : h'.got = s.thread2.got) : Inv T { s with thread2 := h' } where
  flag := hi.flag
  main := Or.inl (hi.opened2 hpc)
  requester := hi.requester
  replier := hr
  fifo1 := by simpa only [hgot] using hi.fifo1
  fifo2 := by simpa only [hsent] using hi.fifo2

theorem act1 (hi : Inv T s) (hg : guard s a) (hq : a.Quiet) : Inv T (act1 T s a) := by
  cases a with
  | head1 =>
    have hpc : s.thread1.pc = .head := hg
    exact hi.local1 (by simp [hpc]) (hi.requester.checkHead hpc hi.flag).1 rfl rfl
  | send1 ok =>
    obtain rfl : ok = true := hq
    have hpc : s.thread1.pc = .send := hg.1
    have hopen := hi.opened1 (by simp [hpc])
    refine { hi with
      main := Or.inl hopen
      requester := (hi.requester.send hpc).1
      fifo1 := ?_ }
    have hpush := hi.fifo1.push
    have hround := (hi.requester.of_send hpc).1
    rw [hround] at hpush
    simp only [Queues.act1, Handler.send, Mq.send, hround]
    exact hpush
  | count1 =>
    have hpc : s.thread1.pc = .count := hg
    exact hi.local1 (by simp [hpc]) (hi.requester.count hpc).1 rfl rfl
  | call1 ok =>
    obtain rfl : ok = true := hq
    have hpc : s.thread1.pc = .call := hg.1
    exact hi.local1 (by simp [hpc]) (hi.requester.call hpc).1 rfl rfl
  | receive1 ok =>
    obtain rfl : ok = true := hq
    have hpc : s.thread1.pc = .waiting := hg.1
    have hopen := hi.opened1 (by simp [hpc])
    have hfifo := hi.fifo2
    cases hm : s.mqdes2.msgs with
    | nil => exact absurd hm (hg.2 rfl)
    | cons r rest =>
      rw [hm] at hfifo
      simp only [Queues.act1, hm]
      refine { hi with
        main := Or.inl hopen
        requester := (hi.requester.receive hpc r).1
        fifo2 := ?_ }
      simpa only [Mq.pop, Handler.receive, hm, List.tail_cons] using hfifo.pop
  | log1 =>
    have hpc : s.thread1.pc = .log := hg
    exact hi.local1 (by simp [hpc]) (hi.requester.writeLog hpc).1 rfl rfl
  | close1 => exact absurd hg hi.requester.not_closing.1
  | _ => exact hi

theorem act2 (hi : Inv T s) (hg : guard s a) (hq : a.Quiet) : Inv T (act2 T s a) := by
  cases a with
  | head2 =>
    have hpc : s.thread2.pc = .head := hg
    exact hi.local2 (by simp [hpc]) (hi.replier.checkHead hpc hi.flag).1 rfl rfl
  | call2 ok =>
    obtain rfl : ok = true := hq
    have hpc : s.thread2.pc = .call := hg.1
    exact hi.local2 (by simp [hpc]) (hi.replier.call hpc).1 rfl rfl
  | receive2 ok =>
    obtain rfl : ok = true := hq
    have hpc : s.thread2.pc = .waiting := hg.1
    have hopen := hi.opened2 (by simp [hpc])
    have hfifo := hi.fifo1
    cases hm : s.mqdes1.msgs with
    | nil => exact absurd hm (hg.2 rfl)
    | cons r rest =>
      rw [hm] at hfifo
      simp only [Queues.act2, hm]
      refine { hi with
        main := Or.inl hopen
        replier := (hi.replier.receive hpc r).1
        fifo1 := ?_ }
      simpa only [Mq.pop, Handler.receive, hm, List.tail_cons] using hfifo.pop
  | log2 =>
    have hpc : s.thread2.pc = .log := hg
    exact hi.local2 (by simp [hpc]) (hi.replier.writeLog hpc).1 rfl rfl
  | send2 ok =>
    obtain rfl : ok = true := hq
    have hpc : s.thread2.pc = .send := hg.1
    have hopen := hi.opened2 (by simp [hpc])
    refine { hi with
      main := Or.inl hopen
      replier := (hi.replier.send hpc).1
      fifo2 := ?_ }
    have hpush := hi.fifo2.push
    have hround := (hi.replier.of_send hpc).1
    rw [hround] at hpush
    simp only [Queues.act2, Handler.send, Mq.send, hround]
    exact hpush
  | count2 =>
    have hpc : s.thread2.pc = .count := hg
    exact hi.local2 (by simp [hpc]) (hi.replier.count hpc).1 rfl rfl
  | close2 => exact absurd hg hi.replier.not_closing.1
  | _ => exact hi

theorem exited1 (hi : Inv T s) (h : s.thread1.Exited) : s.thread1.pc = .done :=
  h.resolve_left hi.requester.not_closing.2.2

theorem exited2 (hi : Inv T s) (h : s.thread2.Exited) : s.thread2.pc = .done :=
  h.resolve_left hi.replier.not_closing.2.2

theorem act (hi : Inv T s) (hg : guard s a) (hq : a.Quiet) : Inv T (act T a s) := by
  cases a with
  | sigint => exact hq.elim
  | mainClose1 =>
    obtain ⟨-, h1, h2⟩ := hg
    exact { hi with main := Or.inr ⟨hi.exited1 h1, hi.exited2 h2⟩ }
  | mainClose2 =>
    have hmain : s.main ≠ .join := by simp [show s.main = .closeNext from hg]
    exact { hi with main := Or.inr (hi.main.resolve_left fun h => hmain h.1) }
  | head1 | send1 | count1 | call1 | receive1 | log1 | close1 => exact hi.act1 hg hq
  | head2 | call2 | receive2 | log2 | send2 | count2 | close2 => exact hi.act2 hg hq

end Inv

theorem inv_of_reachable (hs : (quiet T).Reachable s) : Inv T s := by
  refine hs.invariant ?_ fun s a _ hi hg => hi.act hg.1 hg.2
  rintro s ⟨buff1, buff2, rfl⟩
  exact Inv.start T buff1 buff2

/-! ## The handshake -/

/-- How often the four calls of a round have succeeded. -/
def counts (s : State) : Handshake :=
  ⟨s.thread1.sent, s.thread2.got.length, s.thread2.sent, s.thread1.got.length⟩

/-- The step of the handshake that a call makes. -/
def label : Action → Option Handshake.Step
  | .send1 true => some .request
  | .receive2 true => some .deliver
  | .send2 true => some .reply
  | .receive1 true => some .ack
  | _ => none

theorem counts_act_of_none (hq : a.Quiet) (hl : label a = none) :
    counts (act T a s) = counts s := by
  cases a with
  | send1 ok | send2 ok | receive1 ok | receive2 ok =>
    obtain rfl : ok = true := hq
    cases hl
  | call1 ok | call2 ok =>
    obtain rfl : ok = true := hq
    rfl
  | _ => rfl

theorem counts_act_of_some {b : Handshake.Step} (hg : guard s a) (hl : label a = some b) :
    counts (act T a s) = Handshake.act b (counts s) := by
  cases a with
  | send1 ok =>
    cases ok <;> cases hl
    rfl
  | send2 ok =>
    cases ok <;> cases hl
    rfl
  | receive1 ok =>
    cases ok <;> cases hl
    cases hm : s.mqdes2.msgs with
    | nil => exact absurd hm (hg.2 rfl)
    | cons r rest => simp [act, act1, hm, counts, Handshake.act, Handler.receive]
  | receive2 ok =>
    cases ok <;> cases hl
    cases hm : s.mqdes1.msgs with
    | nil => exact absurd hm (hg.2 rfl)
    | cons r rest => simp [act, act2, hm, counts, Handshake.act, Handler.receive]
  | _ => cases hl

/-- A call succeeds only where the handshake has its turn. -/
theorem Inv.handshake_guard (hi : Inv T s) {b : Handshake.Step} (hg : guard s a)
    (hl : label a = some b) : Handshake.guard (counts s) b := by
  have h1 := hi.fifo1.length_eq
  have h2 := hi.fifo2.length_eq
  cases a with
  | send1 ok =>
    cases ok <;> cases hl
    exact (hi.requester.of_send hg.1).2.symm
  | send2 ok =>
    cases ok <;> cases hl
    have hgot := (hi.replier.of_send hg.1).2
    show s.thread2.sent < s.thread2.got.length
    omega
  | receive1 ok =>
    cases ok <;> cases hl
    have hpos := List.length_pos_iff.mpr (hg.2 rfl)
    show s.thread1.got.length < s.thread2.sent
    omega
  | receive2 ok =>
    cases ok <;> cases hl
    have hpos := List.length_pos_iff.mpr (hg.2 rfl)
    show s.thread2.got.length < s.thread1.sent
    omega
  | _ => cases hl

/-- The program refines the handshake: the four calls are its steps, and no other
    step counts. -/
theorem refines_handshake (T : Tables) : Refinement (quiet T) Handshake.program label
    (fun s h => Inv T s ∧ counts s = h) where
  init s hs := by
    obtain ⟨buff1, buff2, rfl⟩ := hs
    exact ⟨_, rfl, Inv.start T buff1 buff2, rfl⟩
  stutter s a h hg hl := by
    rintro ⟨hi, rfl⟩
    exact ⟨hi.act hg.1 hg.2, counts_act_of_none hg.2 hl⟩
  step s a h b hg hl := by
    rintro ⟨hi, rfl⟩
    exact ⟨hi.handshake_guard hg.1 hl, hi.act hg.1 hg.2, counts_act_of_some hg.1 hl⟩

/-- Along every run the four calls follow one another as in the handshake. -/
theorem calls_handshake {buff1 buff2 : Record} {as : List Action}
    (h : (quiet T).Run (start buff1 buff2) as s) :
    Handshake.program.Run ⟨0, 0, 0, 0⟩ (as.filterMap label) (counts s) := by
  obtain ⟨_, hrun, -, rfl⟩ :=
    (refines_handshake T).run h _ ⟨Inv.start T buff1 buff2, rfl⟩
  exact hrun

theorem inv_and_chain (hs : (quiet T).Reachable s) : Inv T s ∧ (counts s).Chain := by
  obtain ⟨h, hh, hi, rfl⟩ := (refines_handshake T).reachable hs
  exact ⟨hi, Handshake.chain hh⟩

/-! ## Progress -/

/-- `thread1_handler` can go on unless it is done or waits for a record. -/
theorem Inv.enabled1 (hi : Inv T s) (hsend : s.mqdes1.msgs.length < Mq.maxmsg)
    (hdone : s.thread1.pc ≠ .done) (hwait : s.thread1.pc = .waiting → s.mqdes2.msgs ≠ []) :
    ∃ a, (quiet T).guard s a := by
  obtain ⟨-, hopen1, hopen2⟩ := hi.opened1 hdone
  have hloop := hi.requester.inLoop hdone
  generalize hpc : s.thread1.pc = pc at hloop
  cases hloop with
  | head => exact ⟨.head1, hpc, trivial⟩
  | send => exact ⟨.send1 true, ⟨hpc, fun _ => ⟨hopen1, hsend⟩⟩, rfl⟩
  | count => exact ⟨.count1, hpc, trivial⟩
  | call => exact ⟨.call1 true, ⟨hpc, fun _ => hopen2⟩, rfl⟩
  | waiting => exact ⟨.receive1 true, ⟨hpc, fun _ => hwait hpc⟩, rfl⟩
  | log => exact ⟨.log1, hpc, trivial⟩

theorem Inv.enabled2 (hi : Inv T s) (hsend : s.mqdes2.msgs.length < Mq.maxmsg)
    (hdone : s.thread2.pc ≠ .done) (hwait : s.thread2.pc = .waiting → s.mqdes1.msgs ≠ []) :
    ∃ a, (quiet T).guard s a := by
  obtain ⟨-, hopen1, hopen2⟩ := hi.opened2 hdone
  have hloop := hi.replier.inLoop hdone
  generalize hpc : s.thread2.pc = pc at hloop
  cases hloop with
  | head => exact ⟨.head2, hpc, trivial⟩
  | call => exact ⟨.call2 true, ⟨hpc, fun _ => hopen1⟩, rfl⟩
  | waiting => exact ⟨.receive2 true, ⟨hpc, fun _ => hwait hpc⟩, rfl⟩
  | log => exact ⟨.log2, hpc, trivial⟩
  | send => exact ⟨.send2 true, ⟨hpc, fun _ => ⟨hopen2, hsend⟩⟩, rfl⟩
  | count => exact ⟨.count2, hpc, trivial⟩

theorem queues_length_le (hs : (quiet T).Reachable s) :
    s.mqdes1.msgs.length ≤ 1 ∧ s.mqdes2.msgs.length ≤ 1 := by
  obtain ⟨hi, hc⟩ := inv_and_chain hs
  have h1 := hi.fifo1.length_eq
  have h2 := hi.fifo2.length_eq
  obtain ⟨hc1, hc2, hc3, hc4⟩ := hc
  simp only [counts] at hc1 hc2 hc3 hc4
  omega

/-- Where both handlers are done or wait at an empty queue, both are done. -/
theorem done_of_waiting (hs : (quiet T).Reachable s)
    (h1 : s.thread1.pc = .done ∨ s.thread1.pc = .waiting ∧ s.mqdes2.msgs = [])
    (h2 : s.thread2.pc = .done ∨ s.thread2.pc = .waiting ∧ s.mqdes1.msgs = []) :
    s.thread1.pc = .done ∧ s.thread2.pc = .done := by
  obtain ⟨hi, -⟩ := inv_and_chain hs
  have hf1 := hi.fifo1.length_eq
  have hf2 := hi.fifo2.length_eq
  rcases h1 with h1 | ⟨h1, hm2⟩ <;> rcases h2 with h2 | ⟨h2, hm1⟩
  · exact ⟨h1, h2⟩
  · -- all requests have been sent, so `thread2_handler` has received them all
    have hr1 := hi.requester.of_done h1
    have hr2 := hi.replier.of_waiting h2
    rw [hm1, List.length_nil] at hf1
    omega
  · have hr1 := hi.requester.of_waiting h1
    have hr2 := hi.replier.of_done h2
    rw [hm2, List.length_nil] at hf2
    omega
  · -- no request is under way and no reply, but `thread1_handler` has sent one more
    have hr1 := hi.requester.of_waiting h1
    have hr2 := hi.replier.of_waiting h2
    rw [hm1, List.length_nil] at hf1
    rw [hm2, List.length_nil] at hf2
    omega

theorem not_stuck (hs : (quiet T).Reachable s) (h : ¬ (s.thread1.Exited ∧ s.thread2.Exited)) :
    ¬ (quiet T).Stuck s := by
  intro hstuck
  have hnone : ¬ ∃ a, (quiet T).guard s a := fun ⟨a, ha⟩ => hstuck a ha
  obtain ⟨hi, -⟩ := inv_and_chain hs
  obtain ⟨hl1, hl2⟩ := queues_length_le hs
  have hroom : 1 < Mq.maxmsg := by decide
  obtain ⟨hd1, hd2⟩ := done_of_waiting hs
    (by
      by_contra hrun
      rw [not_or, not_and] at hrun
      exact hnone (hi.enabled1 (hl1.trans_lt hroom) hrun.1 hrun.2))
    (by
      by_contra hrun
      rw [not_or, not_and] at hrun
      exact hnone (hi.enabled2 (hl2.trans_lt hroom) hrun.1 hrun.2))
  exact h ⟨Or.inr hd1, Or.inr hd2⟩

theorem queues_empty_of_exited (hs : (quiet T).Reachable s) (h1 : s.thread1.Exited)
    (h2 : s.thread2.Exited) : s.mqdes1.msgs = [] ∧ s.mqdes2.msgs = [] := by
  obtain ⟨hi, -⟩ := inv_and_chain hs
  have hf1 := hi.fifo1.length_eq
  have hf2 := hi.fifo2.length_eq
  obtain ⟨hs1, hg1⟩ := hi.requester.of_done (hi.exited1 h1)
  obtain ⟨hs2, hg2⟩ := hi.replier.of_done (hi.exited2 h2)
  constructor <;> apply List.eq_nil_of_length_eq_zero <;> omega

/-- The counter of `thread1_handler` is at most two ahead of the other one, and at
    most one behind it. -/
theorem counters_close (hs : (quiet T).Reachable s) :
    s.thread1.i ≤ s.thread2.i + 2 ∧ s.thread2.i ≤ s.thread1.i + 1 := by
  obtain ⟨hi, hc⟩ := inv_and_chain hs
  obtain ⟨hc1, hc2, hc3, hc4⟩ := hc
  simp only [counts] at hc1 hc2 hc3 hc4
  have hb1 := hi.requester.bounds
  have hb2 := hi.replier.bounds
  omega

/-- The lock-step of the two handlers, in every state that they can reach. -/
theorem lockstep (T : Tables) {s : State} (hs : (quiet T).Reachable s) :
    s.thread2.got = (List.range s.thread2.got.length).map T.t1 ∧
    s.thread1.got = (List.range s.thread1.got.length).map T.t2 ∧
    s.thread1.logged.length ≤ s.thread2.got.length ∧
    (s.thread1.i ≤ s.thread2.i + 2 ∧ s.thread2.i ≤ s.thread1.i + 1) ∧
    (s.mqdes1.msgs.length ≤ 1 ∧ s.mqdes2.msgs.length ≤ 1) ∧
    (s.thread1.pc = .send → (quiet T).guard s (.send1 true)) ∧
    (s.thread2.pc = .send → (quiet T).guard s (.send2 true)) ∧
    (¬ (s.thread1.Exited ∧ s.thread2.Exited) → ¬ (quiet T).Stuck s) ∧
    (s.thread1.Exited ∧ s.thread2.Exited → s.mqdes1.msgs = [] ∧ s.mqdes2.msgs = []) := by
  obtain ⟨hi, hc⟩ := inv_and_chain hs
  have hlen := queues_length_le hs
  have hroom : 1 < Mq.maxmsg := by decide
  refine ⟨hi.fifo1.got_eq, hi.fifo2.got_eq, ?_, counters_close hs, hlen, fun hpc => ?_,
    fun hpc => ?_, not_stuck hs, fun h => queues_empty_of_exited hs h.1 h.2⟩
  · calc
      s.thread1.logged.length ≤ s.thread1.got.length := hi.requester.logs.length_le
      _ ≤ s.thread2.sent := hc.acks_le
      _ ≤ s.thread2.got.length := hc.replies_le
  · have hopen := hi.opened1 (by simp [hpc])
    exact ⟨⟨hpc, fun _ => ⟨hopen.2.1, hlen.1.trans_lt hroom⟩⟩, rfl⟩
  · have hopen := hi.opened2 (by simp [hpc])
    exact ⟨⟨hpc, fun _ => ⟨hopen.2.2, hlen.2.trans_lt hroom⟩⟩, rfl⟩

/-- The second command is sent and counted while the first acknowledgement, though
    received, is not counted by its sender. -/
def aheadRun : List Action :=
  [.head1, .send1 true, .count1, .head2, .call2 true, .receive2 true, .log2, .send2 true,
    .call1 true, .receive1 true, .log1, .head1, .send1 true, .count1]

theorem lockstep_ahead :
    ∃ s, (quiet ⟨10, fun _ => default, fun _ => default⟩).exec aheadRun
        (start default default) = some s ∧
      s.thread2.got = [default] ∧ s.mqdes1.msgs.length ≤ 1 ∧
      ¬ (quiet ⟨10, fun _ => default, fun _ => default⟩).Stuck s := by
  refine ⟨_, rfl, ?_⟩
  have hall := lockstep ⟨10, fun _ => default, fun _ => default⟩
    (Program.Reachable.run (.init ⟨default, default, rfl⟩) (Program.run_of_exec _ aheadRun _ rfl))
  exact ⟨hall.1, hall.2.2.2.2.1.1, hall.2.2.2.2.2.2.2.1 (by decide)⟩

theorem counters_differ_by_two :
    ¬ ∀ s, (quiet ⟨10, fun _ => default, fun _ => default⟩).Reachable s →
      s.thread1.i ≤ s.thread2.i + 1 ∧ s.thread2.i ≤ s.thread1.i + 1 := by
  intro hall
  have hreach := Program.Reachable.run (P := quiet ⟨10, fun _ => default, fun _ => default⟩)
    (.init ⟨default, default, rfl⟩) (Program.run_of_exec _ aheadRun _ rfl)
  have hle : 2 ≤ 0 + 1 := (hall _ hreach).1
  omega

end Apes.Queues
