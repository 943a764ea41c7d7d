import Apes.Ipc.Parting
import Apes.Ipc.Queues

/-!
# The descriptors of `queues.c`

What a step of one handler leaves alone, and how often the two descriptors have been
closed: by a handler that leaves after a signal, and by `main` when both have exited.
-/

namespace Apes.Queues

open Apes Pc

variable {T : Tables} {s : State} {a : Action} {r : Role}

theorem act1_thread2 : (act1 T s a).thread2 = s.thread2 := by
  unfold act1
  split <;> first | rfl | (split <;> rfl)

theorem act2_thread1 : (act2 T s a).thread1 = s.thread1 := by
  unfold act2
  split <;> first | rfl | (split <;> rfl)

theorem act1_flag : (act1 T s a).flag = s.flag := by
  unfold act1
  split <;> first | rfl | (split <;> rfl)

theorem act2_flag : (act2 T s a).flag = s.flag := by
  unfold act2
  split <;> first | rfl | (split <;> rfl)

theorem act1_main : (act1 T s a).main = s.main := by
  unfold act1
  split <;> first | rfl | (split <;> rfl)

theorem act2_main : (act2 T s a).main = s.main := by
  unfold act2
  split <;> first | rfl | (split <;> rfl)

/-! ## A step of one handler -/

def State.thread (s : State) : Role → Handler Record
  | .first => s.thread1
  | .second => s.thread2

/-- The queue that a handler sends to. -/
def State.mqdes (s : State) : Role → Mq
  | .first => s.mqdes1
  | .second => s.mqdes2

/-- The steps of a handler. -/
def Action.By : Role → Action → Prop
  | .first, .head1 | .first, .send1 _ | .first, .count1 | .first, .call1 _
  | .first, .receive1 _ | .first, .log1 | .first, .close1 => True
  | .second, .head2 | .second, .call2 _ | .second, .receive2 _ | .second, .log2
  | .second, .send2 _ | .second, .count2 | .second, .close2 => True
  | _, _ => False

/-- What a step of a handler makes of the handler, of the queue that it sends to and of the
    one that it receives from. -/
inductive Moves (r : Role) (flag : Bool) (n : ℕ) (t : ℕ → Record) (h : Handler Record)
    (own peer : Mq) : Handler Record → Mq → Mq → Prop
  | head (hpc : h.pc = .head) :
    Moves r flag n t h own peer (h.checkHead flag n (r.next .head)) own peer
  | send (hpc : h.pc = .send) :
    Moves r flag n t h own peer (h.send true .count) (own.send (t h.i)) peer
  | sendFails (hpc : h.pc = .send) : Moves r flag n t h own peer (h.send false .count) own peer
  | count (hpc : h.pc = .count) : Moves r flag n t h own peer (h.count (r.next .count)) own peer
  | call (hpc : h.pc = .call) : Moves r flag n t h own peer (h.goto .waiting) own peer
  | callFails (hpc : h.pc = .call) : Moves r flag n t h own peer (h.goto .log) own peer
  | receive {m : Record} {rest : List Record} (hpc : h.pc = .waiting) (hm : peer.msgs = m :: rest) :
    Moves r flag n t h own peer (h.receive m) own peer.pop
  | receiveFails (hpc : h.pc = .waiting) : Moves r flag n t h own peer (h.goto .log) own peer
  | log (hpc : h.pc = .log) : Moves r flag n t h own peer (h.writeLog (r.next .log)) own peer
  | close (hpc : h.pc = .close) : Moves r flag n t h own peer (h.goto .killed) own.close peer

/-- What a step of a handler does, whichever of the two it is. -/
theorem act_moves (hg : guard s a) (ha : a.By r) :
    Moves r s.flag T.n (T.records r) (s.thread r) (s.mqdes r) (s.mqdes r.other)
      ((act T a s).thread r) ((act T a s).mqdes r) ((act T a s).mqdes r.other) := by
  cases r with
  | first =>
    cases a with
    | head1 => exact .head hg
    | send1 ok =>
      cases ok with
      | false => exact .sendFails hg.1
      | true => exact .send hg.1
    | count1 => exact .count hg
    | call1 ok =>
      cases ok with
      | false => exact .callFails hg.1
      | true => exact .call hg.1
    | receive1 ok =>
      cases ok with
      | false => exact .receiveFails hg.1
      | true =>
        cases hm : s.mqdes2.msgs with
        | nil => exact absurd hm (hg.2 rfl)
        | cons m rest =>
          simp only [act, act1, hm]
          exact .receive hg.1 hm
    | log1 => exact .log hg
    | close1 => exact .close hg
    | _ => exact ha.elim
  | second =>
    cases a with
    | head2 => exact .head hg
    | call2 ok =>
      cases ok with
      | false => exact .callFails hg.1
      | true => exact .call hg.1
    | receive2 ok =>
      cases ok with
      | false => exact .receiveFails hg.1
      | true =>
        cases hm : s.mqdes1.msgs with
        | nil => exact absurd hm (hg.2 rfl)
        | cons m rest =>
          simp only [act, act2, hm]
          exact .receive hg.1 hm
    | log2 => exact .log hg
    | send2 ok =>
      cases ok with
      | false => exact .sendFails hg.1
      | true => exact .send hg.1
    | count2 => exact .count hg
    | close2 => exact .close hg
    | _ => exact ha.elim

/-- The check of `flag` by a handler. -/
def headOf : Role → Action
  | .first => .head1
  | .second => .head2

/-- The step in which a handler closes its queue. -/
def closeOf : Role → Action
  | .first => .close1
  | .second => .close2

theorem eq_headOf (hg : guard s a) (ha : a.By r) (hpc : (s.thread r).pc = .head) :
    a = headOf r := by
  cases r <;> simp only [State.thread] at hpc <;>
    cases a <;> first | rfl | exact ha.elim | simp [guard, hpc] at hg

theorem eq_closeOf (hg : guard s a) (ha : a.By r) (hpc : (s.thread r).pc = .close) :
    a = closeOf r := by
  cases r <;> simp only [State.thread] at hpc <;>
    cases a <;> first | rfl | exact ha.elim | simp [guard, hpc] at hg

theorem Action.By.not_other (ha : a.By r) : ¬ a.By r.other := by
  cases r <;> cases a <;> first | exact ha.elim | exact id

/-- A handler is left alone by all steps but its own. -/
theorem thread_act (ha : ¬ a.By r) : (act T a s).thread r = s.thread r := by
  cases r with
  | first =>
    cases a with
    | head1 | send1 | count1 | call1 | receive1 | log1 | close1 => exact absurd trivial ha
    | sigint | mainClose1 | mainClose2 => rfl
    | head2 | call2 | receive2 | log2 | send2 | count2 | close2 => exact act2_thread1
  | second =>
    cases a with
    | head2 | call2 | receive2 | log2 | send2 | count2 | close2 => exact absurd trivial ha
    | sigint | mainClose1 | mainClose2 => rfl
    | head1 | send1 | count1 | call1 | receive1 | log1 | close1 => exact act1_thread2

/-- `main` is left alone by the steps of the handlers. -/
theorem act_main (ha : a.By r) : (act T a s).main = s.main := by
  cases r with
  | first =>
    cases a with
    | head1 | send1 | count1 | call1 | receive1 | log1 | close1 => exact act1_main
    | _ => exact ha.elim
  | second =>
    cases a with
    | head2 | call2 | receive2 | log2 | send2 | count2 | close2 => exact act2_main
    | _ => exact ha.elim

namespace Moves

variable {flag : Bool} {n m : ℕ} {t : ℕ → Record} {h h' : Handler Record} {own own' peer peer' : Mq}

theorem next (hm : Moves r flag n t h own peer h' own' peer') : Next r flag h.pc h'.pc := by
  cases hm with
  | head hpc =>
    rw [hpc]
    exact Next.checkHead r h flag n
  | send hpc | sendFails hpc =>
    rw [hpc]
    exact .send
  | count hpc =>
    rw [hpc]
    exact .count
  | call hpc =>
    rw [hpc]
    exact .call
  | callFails hpc =>
    rw [hpc]
    exact .callFails
  | receive hpc | receiveFails hpc =>
    rw [hpc]
    exact .receive
  | log hpc =>
    rw [hpc]
    exact .log
  | close hpc =>
    rw [hpc]
    exact .closeLast

/-- A handler that has exited makes no step. -/
theorem not_exited (hm : Moves r flag n t h own peer h' own' peer') : ¬ h.Exited :=
  fun hexit => hexit.elim hm.next.ne_exited.1 hm.next.ne_exited.2

/-- A handler is killed by its last step, which is the only one that closes its queue. -/
theorem closes (hm : Moves r flag n t h own peer h' own' peer') :
    (h'.pc = .killed ↔ h.pc = .close) ∧
      own'.closes = own.closes + (if h.pc = .close then 1 else 0) ∧ peer'.closes = peer.closes := by
  cases hm with
  | head hpc =>
    have hne : (h.checkHead flag n (r.next .head)).pc ≠ .killed := by
      intro heq
      have hn := Next.checkHead r h flag n
      rw [heq] at hn
      cases r <;> cases hn
    simp [hpc, hne]
  | send hpc | sendFails hpc => simp [hpc, Handler.send, Mq.send]
  | count hpc | log hpc =>
    cases r <;> simp [hpc, Handler.count, Handler.writeLog, Role.next]
  | call hpc | callFails hpc | receiveFails hpc => simp [hpc, Handler.goto]
  | receive hpc => simp [hpc, Handler.receive, Mq.pop]
  | close hpc => simp [hpc, Handler.goto, Mq.close]

/-- The closes of the own queue, but for `m` of them, are that of a handler that was killed. -/
theorem own_closes (hm : Moves r flag n t h own peer h' own' peer')
    (hc : own.closes = (if h.pc = .killed then 1 else 0) + m) :
    own'.closes = (if h'.pc = .killed then 1 else 0) + m := by
  obtain ⟨hkilled, hown, -⟩ := hm.closes
  rw [if_neg hm.next.ne_exited.1] at hc
  rw [hown, hc]
  simp only [hkilled]
  omega

end Moves

/-! ## The closes -/

/-- How often the descriptors have been closed: by a handler that has left after a signal,
    and by `main`, which waits for both handlers. -/
structure Lifetimes (s : State) : Prop where
  closes1 : s.mqdes1.closes =
    (if s.thread1.pc = .killed then 1 else 0) + (if s.main = .join then 0 else 1)
  closes2 : s.mqdes2.closes =
    (if s.thread2.pc = .killed then 1 else 0) + (if s.main = .done then 1 else 0)
  main : s.main ≠ .join → s.thread1.Exited ∧ s.thread2.Exited

namespace Lifetimes

theorem open1 (hl : Lifetimes s) (h : ¬ s.thread1.Exited) : s.mqdes1.IsOpen := by
  have hpc : s.thread1.pc ≠ .killed := fun hpc => h (Or.inl hpc)
  have hmain : s.main = .join := by_contra fun hmain => h (hl.main hmain).1
  rw [Mq.IsOpen, hl.closes1, if_neg hpc, if_pos hmain]

theorem open2 (hl : Lifetimes s) (h : ¬ s.thread2.Exited) : s.mqdes2.IsOpen := by
  have hpc : s.thread2.pc ≠ .killed := fun hpc => h (Or.inl hpc)
  have hmain : s.main = .join := by_contra fun hmain => h (hl.main hmain).2
  rw [Mq.IsOpen, hl.closes2, if_neg hpc, if_neg (by simp [hmain])]

theorem start (buff1 buff2 : Record) : Lifetimes (start buff1 buff2) where
  closes1 := rfl
  closes2 := rfl
  main h := absurd rfl h

/-- A step of one handler. -/
theorem moves (hl : Lifetimes s) (hg : guard s a) (ha : a.By r) : Lifetimes (act T a s) := by
  have hm := act_moves (T := T) hg ha
  have hpeer := hm.closes.2.2
  have hmain := act_main (T := T) (s := s) ha
  have hsame := thread_act (T := T) (s := s) ha.not_other
  cases r with
  | first =>
    have hsame : (act T a s).thread2 = s.thread2 := hsame
    refine ⟨hmain ▸ hm.own_closes hl.closes1, ?_, fun h => ?_⟩
    · rw [hsame, hmain]
      exact hpeer.trans hl.closes2
    · exact absurd (hl.main (hmain ▸ h)).1 hm.not_exited
  | second =>
    have hsame : (act T a s).thread1 = s.thread1 := hsame
    refine ⟨?_, hmain ▸ hm.own_closes hl.closes2, fun h => ?_⟩
    · rw [hsame, hmain]
      exact hpeer.trans hl.closes1
    · exact absurd (hl.main (hmain ▸ h)).2 hm.not_exited

theorem act (hl : Lifetimes s) (hg : guard s a) : Lifetimes (act T a s) := by
  cases a with
  | sigint => exact { hl with }
  | mainClose1 =>
    obtain ⟨hmain, h1, h2⟩ := hg
    have hcloses1 := hl.closes1
    have hcloses2 := hl.closes2
    simp only [hmain, reduceCtorEq, if_true, if_false] at hcloses1 hcloses2
    exact ⟨congrArg (· + 1) hcloses1, hcloses2, fun _ => ⟨h1, h2⟩⟩
  | mainClose2 =>
    have hmain : s.main = .closeNext := hg
    have hcloses1 := hl.closes1
    have hcloses2 := hl.closes2
    simp only [hmain, reduceCtorEq, if_false] at hcloses1 hcloses2
    exact ⟨hcloses1, congrArg (· + 1) hcloses2, fun _ => hl.main (by simp [hmain])⟩
  | head1 | send1 | count1 | call1 | receive1 | log1 | close1 =>
    exact hl.moves (r := .first) hg trivial
  | head2 | call2 | receive2 | log2 | send2 | count2 | close2 =>
    exact hl.moves (r := .second) hg trivial

end Lifetimes

theorem lifetimes_of_reachable (hs : (program T).Reachable s) : Lifetimes s := by
  refine hs.invariant (I := Lifetimes) ?_ fun s a _ hl hg => hl.act hg
  rintro s ⟨buff1, buff2, rfl⟩
  exact Lifetimes.start buff1 buff2

end Apes.Queues
