import Apes.Ipc.Queues
import Apes.Ipc.Rounds
import Apes.Lib.Fifo

/-!
# Failing calls in `queues.c`

A handler whose `mq_receive` fails prints a message and then logs what is in its
buffer. The queues themselves never deliver a record twice or out of order, whatever
fails; what is logged is delivered exactly as long as no `mq_receive` fails.
-/

namespace Apes.Queues

open Apes Handler

variable {T : Tables} {s : State} {a : Action}

/-- How many records a handler has offered to its queue. -/
def offered (h : Handler Record) : ℕ := if h.pc = .count then h.i + 1 else h.i

/-- The counter of `thread1_handler`, whatever has failed. -/
def Counts1 (n : ℕ) (h : Handler Record) : Prop :=
  h.i ≤ n ∧ (h.pc = .send ∨ h.pc = .count → h.i < n)

/-- The counter of `thread2_handler`, whatever has failed. -/
def Counts2 (n : ℕ) (h : Handler Record) : Prop :=
  h.i ≤ n ∧ (h.pc = .call ∨ h.pc = .waiting ∨ h.pc = .log ∨ h.pc = .send ∨ h.pc = .count → h.i < n)

/-- Every entry of the log belongs to a receive that has returned, and the last receive
    may not be logged yet. -/
def LogsAll (h : Handler Record) : Prop :=
  h.got.length ≤ h.logged.length + if h.pc = .log then 1 else 0

/-- What holds in every state, with any signal and any failing calls. -/
structure Offers (T : Tables) (s : State) : Prop where
  counts1 : Counts1 T.n s.thread1
  counts2 : Counts2 T.n s.thread2
  logs1 : LogsAll s.thread1
  logs2 : LogsAll s.thread2
  lossy1 : Lossy T.t1 (offered s.thread1) s.thread2.got s.mqdes1.msgs
  lossy2 : Lossy T.t2 (offered s.thread2) s.thread1.got s.mqdes2.msgs

theorem Counts1.offered_le {n : ℕ} {h : Handler Record} (hc : Counts1 n h) : offered h ≤ n := by
  unfold offered
  split
  · next hpc => exact hc.2 (Or.inr hpc)
  · exact hc.1

theorem Counts2.offered_le {n : ℕ} {h : Handler Record} (hc : Counts2 n h) : offered h ≤ n := by
  unfold offered
  split
  · next hpc => exact hc.2 (by simp [hpc])
  · exact hc.1

theorem offered_of_ne {h : Handler Record} (hpc : h.pc ≠ .count) : offered h = h.i := if_neg hpc

theorem offered_of_count {h : Handler Record} (hpc : h.pc = .count) : offered h = h.i + 1 :=
  if_pos hpc

/-- Only the send and `i++` have to do with what has been offered. -/
theorem offered_eq {h h' : Handler Record} (hpc : h.pc ≠ .count) (hpc' : h'.pc ≠ .count)
    (hi : h'.i = h.i) : offered h' = offered h := by
  rw [offered_of_ne hpc, offered_of_ne hpc', hi]

theorem offered_le {h h' : Handler Record} (hpc : h.pc ≠ .count) (hpc' : h'.pc ≠ .count)
    (hi : h'.i = h.i) : offered h ≤ offered h' := (offered_eq hpc hpc' hi).ge

theorem checkHead_pc (h : Handler Record) (flag : Bool) (n : ℕ) {pc next : Pc}
    (hclose : pc ≠ .close) (hdone : pc ≠ .done) (hpc : (h.checkHead flag n next).pc = pc) :
    pc = next ∧ h.i ≠ n := by
  simp only [Handler.checkHead] at hpc
  split at hpc
  · exact absurd hpc.symm hclose
  · split at hpc
    · exact absurd hpc.symm hdone
    · next hne => exact ⟨hpc.symm, hne⟩

namespace LogsAll

variable {h : Handler Record}

theorem length_le (hl : LogsAll h) (hpc : h.pc ≠ .log) : h.got.length ≤ h.logged.length := by
  rwa [LogsAll, if_neg hpc, Nat.add_zero] at hl

/-- A step that neither delivers a record nor logs one. -/
theorem move (h' : Handler Record) (hl : LogsAll h) (hpc : h.pc ≠ .log) (hgot : h'.got = h.got)
    (hlogged : h'.logged = h.logged) : LogsAll h' := by
  rw [LogsAll, hgot, hlogged]
  exact (hl.length_le hpc).trans (Nat.le_add_right _ _)

theorem receive (hl : LogsAll h) (hpc : h.pc ≠ .log) (r : Record) : LogsAll (h.receive r) := by
  have hlen := hl.length_le hpc
  simpa [LogsAll, Handler.receive] using hlen

theorem writeLog (hl : LogsAll h) (hpc : h.pc = .log) (next : Pc) : LogsAll (h.writeLog next) := by
  rw [LogsAll, if_pos hpc] at hl
  simp only [LogsAll, Handler.writeLog, List.length_append, List.length_singleton]
  exact hl.trans (Nat.le_add_right _ _)

end LogsAll

namespace Offers

theorem start (T : Tables) (buff1 buff2 : Record) : Offers T (start buff1 buff2) where
  counts1 := ⟨Nat.zero_le _, by simp [Queues.start, Handler.start]⟩
  counts2 := ⟨Nat.zero_le _, by simp [Queues.start, Handler.start]⟩
  logs1 := Nat.zero_le _
  logs2 := Nat.zero_le _
  lossy1 := Lossy.empty _ _
  lossy2 := Lossy.empty _ _

/-- A step of `thread1_handler` after which the queues hold what they held before. -/
theorem local1 (ho : Offers T s) {h' : Handler Record} (hc : Counts1 T.n h') (hl : LogsAll h')
    (hoff : offered s.thread1 ≤ offered h') (hgot : h'.got = s.thread1.got) :
    Offers T { s with thread1 := h' } :=
  { ho with
    counts1 := hc
    logs1 := hl
    lossy1 := ho.lossy1.mono hoff
    lossy2 := by simpa only [hgot] using ho.lossy2 }

/-- A step of `thread2_handler` after which the queues hold what they held before. -/
theorem local2 (ho : Offers T s) {h' : Handler Record} (hc : Counts2 T.n h') (hl : LogsAll h')
    (hoff : offered s.thread2 ≤ offered h') (hgot : h'.got = s.thread2.got) :
    Offers T { s with thread2 := h' } :=
  { ho with
    counts2 := hc
    logs2 := hl
    lossy1 := by simpa only [hgot] using ho.lossy1
    lossy2 := ho.lossy2.mono hoff }

theorem act1 (ho : Offers T s) (hg : guard s a) : Offers T (act1 T s a) := by
  obtain ⟨hle, hlt⟩ := ho.counts1
  cases a with
  | head1 =>
    have hpc : s.thread1.pc = .head := hg
    refine ho.local1 ⟨hle, ?_⟩ (ho.logs1.move _ (by simp [hpc]) rfl rfl) ?_ rfl
    · rintro (h | h)
      · exact lt_of_le_of_ne hle (checkHead_pc _ _ _ (by decide) (by decide) h).2
      · exact absurd (checkHead_pc _ _ _ (by decide) (by decide) h).1 (by decide)
    · refine offered_le (by simp [hpc]) (fun h => ?_) rfl
      exact absurd (checkHead_pc _ _ _ (by decide) (by decide) h).1 (by decide)
  | send1 ok =>
    have hpc : s.thread1.pc = .send := hg.1
    have hcounts : Counts1 T.n (s.thread1.send ok .count) := ⟨hle, fun _ => hlt (Or.inl hpc)⟩
    have hlogs := ho.logs1.move (s.thread1.send ok .count) (by simp [hpc]) rfl rfl
    have hoff : offered s.thread1 = s.thread1.i := offered_of_ne (by simp [hpc])
    have hoff' : offered (s.thread1.send ok .count) = s.thread1.i + 1 := offered_of_count rfl
    cases ok with
    | false => exact ho.local1 hcounts hlogs (by rw [hoff, hoff']; exact Nat.le_succ _) rfl
    | true =>
      refine { ho with counts1 := hcounts, logs1 := hlogs, lossy1 := ?_ }
      have hpush := ho.lossy1.push
      rw [hoff] at hpush
      simp only [Queues.act1, hoff', Mq.send]
      exact hpush
  | count1 =>
    have hpc : s.thread1.pc = .count := hg
    refine ho.local1 ⟨hlt (Or.inr hpc), by simp [Handler.count]⟩
      (ho.logs1.move _ (by simp [hpc]) rfl rfl) ?_ rfl
    rw [offered_of_count hpc, offered_of_ne (by simp [Handler.count])]
    rfl
  | call1 ok =>
    have hpc : s.thread1.pc = .call := hg.1
    cases ok <;> exact ho.local1 ⟨hle, by simp [Handler.goto]⟩
      (ho.logs1.move _ (by simp [hpc]) rfl rfl)
      (offered_le (by simp [hpc]) (by simp [Handler.goto]) rfl) rfl
  | receive1 ok =>
    have hpc : s.thread1.pc = .waiting := hg.1
    cases ok with
    | false =>
      exact ho.local1 ⟨hle, by simp [Handler.goto]⟩ (ho.logs1.move _ (by simp [hpc]) rfl rfl)
        (offered_le (by simp [hpc]) (by simp [Handler.goto]) rfl) rfl
    | true =>
      have hlossy := ho.lossy2
      cases hm : s.mqdes2.msgs with
      | nil => exact absurd hm (hg.2 rfl)
      | cons r rest =>
        rw [hm] at hlossy
        have hoff : offered (s.thread1.receive r) = offered s.thread1 :=
          offered_eq (by simp [hpc]) (by simp [Handler.receive]) rfl
        have hcounts : Counts1 T.n (s.thread1.receive r) := ⟨hle, by simp [Handler.receive]⟩
        simp only [Queues.act1, hm]
        refine { ho with
          counts1 := hcounts
          logs1 := ho.logs1.receive (by simp [hpc]) r
          lossy1 := hoff ▸ ho.lossy1
          lossy2 := ?_ }
        simpa only [Mq.pop, Handler.receive, hm, List.tail_cons] using hlossy.pop
  | log1 =>
    have hpc : s.thread1.pc = .log := hg
    exact ho.local1 ⟨hle, by simp [Handler.writeLog]⟩ (ho.logs1.writeLog hpc .head)
      (offered_le (by simp [hpc]) (by simp [Handler.writeLog]) rfl) rfl
  | close1 =>
    have hpc : s.thread1.pc = .close := hg
    have hoff : offered (s.thread1.goto .killed) = offered s.thread1 :=
      offered_eq (by simp [hpc]) (by simp [Handler.goto]) rfl
    have hcounts : Counts1 T.n (s.thread1.goto .killed) := ⟨hle, by simp [Handler.goto]⟩
    exact { ho with
      counts1 := hcounts
      logs1 := ho.logs1.move (s.thread1.goto .killed) (by simp [hpc]) rfl rfl
      lossy1 := hoff ▸ ho.lossy1 }
  | _ => exact ho

theorem act2 (ho : Offers T s) (hg : guard s a) : Offers T (act2 T s a) := by
  obtain ⟨hle, hlt⟩ := ho.counts2
  cases a with
  | head2 =>
    have hpc : s.thread2.pc = .head := hg
    refine ho.local2 ⟨hle, fun h => lt_of_le_of_ne hle ?_⟩ (ho.logs2.move _ (by simp [hpc]) rfl rfl)
      ?_ rfl
    · rcases h with h | h | h | h | h <;>
        exact (checkHead_pc _ _ _ (by decide) (by decide) h).2
    · refine offered_le (by simp [hpc]) (fun h => ?_) rfl
      exact absurd (checkHead_pc _ _ _ (by decide) (by decide) h).1 (by decide)
  | call2 ok =>
    have hpc : s.thread2.pc = .call := hg.1
    cases ok <;> exact ho.local2 ⟨hle, fun _ => hlt (by simp [hpc])⟩
      (ho.logs2.move _ (by simp [hpc]) rfl rfl)
      (offered_le (by simp [hpc]) (by simp [Handler.goto]) rfl) rfl
  | receive2 ok =>
    have hpc : s.thread2.pc = .waiting := hg.1
    cases ok with
    | false =>
      exact ho.local2 ⟨hle, fun _ => hlt (by simp [hpc])⟩ (ho.logs2.move _ (by simp [hpc]) rfl rfl)
        (offered_le (by simp [hpc]) (by simp [Handler.goto]) rfl) rfl
    | true =>
      have hlossy := ho.lossy1
      cases hm : s.mqdes1.msgs with
      | nil => exact absurd hm (hg.2 rfl)
      | cons r rest =>
        rw [hm] at hlossy
        have hoff : offered (s.thread2.receive r) = offered s.thread2 :=
          offered_eq (by simp [hpc]) (by simp [Handler.receive]) rfl
        simp only [Queues.act2, hm]
        refine { ho with
          counts2 := ⟨hle, fun _ => hlt (by simp [hpc])⟩
          logs2 := ho.logs2.receive (by simp [hpc]) r
          lossy1 := ?_
          lossy2 := hoff ▸ ho.lossy2 }
        simpa only [Mq.pop, Handler.receive, hm, List.tail_cons] using hlossy.pop
  | log2 =>
    have hpc : s.thread2.pc = .log := hg
    exact ho.local2 ⟨hle, fun _ => hlt (by simp [hpc])⟩ (ho.logs2.writeLog hpc .send)
      (offered_le (by simp [hpc]) (by simp [Handler.writeLog]) rfl) rfl
  | send2 ok =>
    have hpc : s.thread2.pc = .send := hg.1
    have hcounts : Counts2 T.n (s.thread2.send ok .count) := ⟨hle, fun _ => hlt (by simp [hpc])⟩
    have hlogs := ho.logs2.move (s.thread2.send ok .count) (by simp [hpc]) rfl rfl
    have hoff : offered s.thread2 = s.thread2.i := offered_of_ne (by simp [hpc])
    have hoff' : offered (s.thread2.send ok .count) = s.thread2.i + 1 := offered_of_count rfl
    cases ok with
    | false => exact ho.local2 hcounts hlogs (by rw [hoff, hoff']; exact Nat.le_succ _) rfl
    | true =>
      refine { ho with counts2 := hcounts, logs2 := hlogs, lossy2 := ?_ }
      have hpush := ho.lossy2.push
      rw [hoff] at hpush
      simp only [Queues.act2, hoff', Mq.send]
      exact hpush
  | count2 =>
    have hpc : s.thread2.pc = .count := hg
    refine ho.local2 ⟨hlt (by simp [hpc]), by simp [Handler.count]⟩
      (ho.logs2.move _ (by simp [hpc]) rfl rfl) ?_ rfl
    rw [offered_of_count hpc, offered_of_ne (by simp [Handler.count])]
    rfl
  | close2 =>
    have hpc : s.thread2.pc = .close := hg
    have hoff : offered (s.thread2.goto .killed) = offered s.thread2 :=
      offered_eq (by simp [hpc]) (by simp [Handler.goto]) rfl
    have hcounts : Counts2 T.n (s.thread2.goto .killed) := ⟨hle, by simp [Handler.goto]⟩
    exact { ho with
      counts2 := hcounts
      logs2 := ho.logs2.move (s.thread2.goto .killed) (by simp [hpc]) rfl rfl
      lossy2 := hoff ▸ ho.lossy2 }
  | _ => exact ho

theorem act (ho : Offers T s) (hg : guard s a) : Offers T (act T a s) := by
  cases a with
  | sigint | mainClose1 | mainClose2 => exact { ho with }
  | head1 | send1 | count1 | call1 | receive1 | log1 | close1 => exact ho.act1 hg
  | head2 | call2 | receive2 | log2 | send2 | count2 | close2 => exact ho.act2 hg

end Offers

theorem offers_of_reachable (hs : (program T).Reachable s) : Offers T s := by
  refine hs.invariant ?_ fun s a _ ho hg => ho.act hg
  rintro s ⟨buff1, buff2, rfl⟩
  exact Offers.start T buff1 buff2

/-! ## What is logged -/

/-- Every entry of the two logs was delivered by a receive of its own, and the logs are
    parts of the tables, in order and with nothing twice. -/
structure Genuine (T : Tables) (s : State) : Prop where
  delivered1 : s.thread1.logged.Sublist s.thread1.got
  delivered2 : s.thread2.logged.Sublist s.thread2.got
  table1 : s.thread1.logged.Sublist ((List.range T.n).map T.t2)
  table2 : s.thread2.logged.Sublist ((List.range T.n).map T.t1)

/-- The steps but a `mq_receive` that fails. -/
def Action.Receives : Action → Prop
  | .call1 ok | .receive1 ok | .call2 ok | .receive2 ok => ok = true
  | _ => True

instance : DecidablePred Action.Receives
  | .call1 ok | .receive1 ok | .call2 ok | .receive2 ok => inferInstanceAs (Decidable (ok = true))
  | .sigint | .head1 | .send1 _ | .count1 | .log1 | .close1 | .head2 | .log2 | .send2 _ | .count2
  | .close2 | .mainClose1 | .mainClose2 => .isTrue trivial

/-- While no receive fails, both logs are what has been received. -/
theorem logsGot_of_receives (hs : ((program T).restrict fun _ a => a.Receives).Reachable s) :
    s.thread1.LogsGot ∧ s.thread2.LogsGot := by
  refine hs.invariant (I := fun s => s.thread1.LogsGot ∧ s.thread2.LogsGot) ?_ fun s a _ hl hg => ?_
  · rintro s ⟨buff1, buff2, rfl⟩
    exact ⟨rfl, rfl⟩
  · obtain ⟨hg, hr⟩ := hg
    obtain ⟨h1, h2⟩ := hl
    show (act T a s).thread1.LogsGot ∧ (act T a s).thread2.LogsGot
    cases a with
    | head1 => exact ⟨h1.checkHead hg s.flag T.n .send (by decide), h2⟩
    | send1 ok =>
      have hpc : s.thread1.pc = .send := hg.1
      cases ok <;> exact ⟨h1.step _ (by simp [hpc]) (by simp [act, act1, Handler.send]) rfl rfl, h2⟩
    | count1 =>
      have hpc : s.thread1.pc = .count := hg
      exact ⟨h1.step _ (by simp [hpc]) (by simp [act, act1, Handler.count]) rfl rfl, h2⟩
    | call1 ok =>
      obtain rfl : ok = true := hr
      have hpc : s.thread1.pc = .call := hg.1
      exact ⟨h1.step _ (by simp [hpc]) (by simp [act, act1, Handler.goto]) rfl rfl, h2⟩
    | receive1 ok =>
      obtain rfl : ok = true := hr
      have hpc : s.thread1.pc = .waiting := hg.1
      cases hm : s.mqdes2.msgs with
      | nil => exact absurd hm (hg.2 rfl)
      | cons r rest =>
        simp only [act, act1, hm]
        exact ⟨h1.receive (by simp [hpc]) r, h2⟩
    | log1 => exact ⟨h1.writeLog hg (by decide), h2⟩
    | close1 =>
      have hpc : s.thread1.pc = .close := hg
      exact ⟨h1.step _ (by simp [hpc]) (by simp [act, act1, Handler.goto]) rfl rfl, h2⟩
    | head2 => exact ⟨h1, h2.checkHead hg s.flag T.n .call (by decide)⟩
    | call2 ok =>
      obtain rfl : ok = true := hr
      have hpc : s.thread2.pc = .call := hg.1
      exact ⟨h1, h2.step _ (by simp [hpc]) (by simp [act, act2, Handler.goto]) rfl rfl⟩
    | receive2 ok =>
      obtain rfl : ok = true := hr
      have hpc : s.thread2.pc = .waiting := hg.1
      cases hm : s.mqdes1.msgs with
      | nil => exact absurd hm (hg.2 rfl)
      | cons r rest =>
        simp only [act, act2, hm]
        exact ⟨h1, h2.receive (by simp [hpc]) r⟩
    | log2 => exact ⟨h1, h2.writeLog hg (by decide)⟩
    | send2 ok =>
      have hpc : s.thread2.pc = .send := hg.1
      cases ok <;> exact ⟨h1, h2.step _ (by simp [hpc]) (by simp [act, act2, Handler.send]) rfl rfl⟩
    | count2 =>
      have hpc : s.thread2.pc = .count := hg
      exact ⟨h1, h2.step _ (by simp [hpc]) (by simp [act, act2, Handler.count]) rfl rfl⟩
    | close2 =>
      have hpc : s.thread2.pc = .close := hg
      exact ⟨h1, h2.step _ (by simp [hpc]) (by simp [act, act2, Handler.goto]) rfl rfl⟩
    | sigint | mainClose1 | mainClose2 => exact ⟨h1, h2⟩

theorem genuine_of_receives (hs : ((program T).restrict fun _ a => a.Receives).Reachable s) :
    Genuine T s := by
  obtain ⟨h1, h2⟩ := logsGot_of_receives hs
  have ho := offers_of_reachable hs.of_restrict
  have hgot1 := (ho.lossy2.mono ho.counts2.offered_le).got_sublist
  have hgot2 := (ho.lossy1.mono ho.counts1.offered_le).got_sublist
  exact ⟨h1.sublist, h2.sublist, h1.sublist.trans hgot1, h2.sublist.trans hgot2⟩

/-- A failed receive is logged by the next step of its handler, and from then on its log
    is longer than what it has received. -/
theorem not_genuine_of_failure (hs : (program T).Reachable s) (hg : guard s a)
    (hr : ¬ a.Receives) : (program T).CanReach (fun s' => ¬ Genuine T s') (act T a s) := by
  have ho := offers_of_reachable hs
  have hlog : ∀ {h : Handler Record}, LogsAll h → h.pc ≠ .log →
      ¬ (h.logged ++ [h.buff]).Sublist h.got := by
    intro h hl hpc hsub
    have hlen := hsub.length_le
    have hle := hl.length_le hpc
    rw [List.length_append, List.length_singleton] at hlen
    omega
  cases a with
  | call1 ok | receive1 ok =>
    obtain rfl : ok = false := Bool.eq_false_of_not_eq_true hr
    have hpc := hg.1
    refine ⟨[.log1], _, .cons rfl (.nil _), fun hgen => ?_⟩
    exact hlog ho.logs1 (by simp [hpc]) hgen.delivered1
  | call2 ok | receive2 ok =>
    obtain rfl : ok = false := Bool.eq_false_of_not_eq_true hr
    have hpc := hg.1
    refine ⟨[.log2], _, .cons rfl (.nil _), fun hgen => ?_⟩
    exact hlog ho.logs2 (by simp [hpc]) hgen.delivered2
  | _ => exact absurd trivial hr

/-- The logs are genuine in all runs in which every receive succeeds; wherever a receive
    fails, the run can be continued to a log that is not. -/
theorem genuine_iff (T : Tables) :
    (∀ s, ((program T).restrict fun _ a => a.Receives).Reachable s → Genuine T s) ∧
    (∀ s a, (program T).Reachable s → (program T).guard s a → ¬ a.Receives →
      (program T).CanReach (fun s' => ¬ Genuine T s') (act T a s)) :=
  ⟨fun _ hs => genuine_of_receives hs, fun _ _ hs hg hr => not_genuine_of_failure hs hg hr⟩

/-- The first receive of `thread2_handler` fails, and it logs what its buffer happened to
    hold. -/
theorem genuine_fails_uninitialised :
    ¬ ∀ s, (program ⟨10, fun _ => default, fun _ => default⟩).Reachable s →
      Genuine ⟨10, fun _ => default, fun _ => default⟩ s := by
  intro hall
  have hinit : (program ⟨10, fun _ => default, fun _ => default⟩).Reachable
      (start default default) := .init ⟨default, default, rfl⟩
  have hreach := hinit.run (Program.run_of_exec _ [.head2, .call2 false, .log2] _ rfl)
  have hsub : [default].Sublist ([] : List Record) := (hall _ hreach).delivered2
  exact absurd hsub (by simp)

end Apes.Queues
