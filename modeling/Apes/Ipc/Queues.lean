import Apes.Ipc.Handler

/-!
# `queues.c`

Main opens two message queues and starts the two handlers. `thread1_handler`
sends its commands over the first queue and takes the acknowledgements from the
second one, `thread2_handler` answers. Every system call, every check of `flag`,
every `i++` and every log entry is one step; the sleeps are no steps at all, so
every interleaving is a run.
-/

namespace Apes.Queues

open Apes

/-- A message queue and the calls of `mq_close` on its descriptor. -/
structure Mq where
  msgs : List Record
  closes : ℕ

namespace Mq

def IsOpen (q : Mq) : Prop := q.closes = 0

instance (q : Mq) : Decidable q.IsOpen := inferInstanceAs (Decidable (_ = _))

/-- `attr1.mq_maxmsg` -/
def maxmsg : ℕ := 10

def send (q : Mq) (r : Record) : Mq := { q with msgs := q.msgs ++ [r] }

def pop (q : Mq) : Mq := { q with msgs := q.msgs.tail }

def close (q : Mq) : Mq := { q with closes := q.closes + 1 }

end Mq

/-- Where `main` is, once it has started the handlers. -/
inductive MainPc
  /-- In `pthread_join`. -/
  | join
  /-- After `mq_close(mqdes1)`. -/
  | closeNext
  | done
  deriving DecidableEq, Repr

structure State where
  flag : Bool
  mqdes1 : Mq
  mqdes2 : Mq
  thread1 : Handler Record
  thread2 : Handler Record
  main : MainPc

/-- The steps. A call with the argument `false` returns -1. -/
inductive Action
  /-- `SIGINT` is handled. -/
  | sigint
  | head1
  | send1 (ok : Bool)
  | count1
  | call1 (ok : Bool)
  | receive1 (ok : Bool)
  | log1
  | close1
  | head2
  | call2 (ok : Bool)
  | receive2 (ok : Bool)
  | log2
  | send2 (ok : Bool)
  | count2
  | close2
  | mainClose1
  | mainClose2
  deriving DecidableEq, Repr

/-- When a step can be made. A send blocks while the queue is full, a receive
    while it is empty; neither succeeds on a closed descriptor. -/
def guard (s : State) : Action → Prop
  | .sigint => True
  | .head1 => s.thread1.pc = .head
  | .send1 ok => s.thread1.pc = .send ∧
      (ok = true → s.mqdes1.IsOpen ∧ s.mqdes1.msgs.length < Mq.maxmsg)
  | .count1 => s.thread1.pc = .count
  | .call1 ok => s.thread1.pc = .call ∧ (ok = true → s.mqdes2.IsOpen)
  | .receive1 ok => s.thread1.pc = .waiting ∧ (ok = true → s.mqdes2.msgs ≠ [])
  | .log1 => s.thread1.pc = .log
  | .close1 => s.thread1.pc = .close
  | .head2 => s.thread2.pc = .head
  | .call2 ok => s.thread2.pc = .call ∧ (ok = true → s.mqdes1.IsOpen)
  | .receive2 ok => s.thread2.pc = .waiting ∧ (ok = true → s.mqdes1.msgs ≠ [])
  | .log2 => s.thread2.pc = .log
  | .send2 ok => s.thread2.pc = .send ∧
      (ok = true → s.mqdes2.IsOpen ∧ s.mqdes2.msgs.length < Mq.maxmsg)
  | .count2 => s.thread2.pc = .count
  | .close2 => s.thread2.pc = .close
  | .mainClose1 => s.main = .join ∧ s.thread1.Exited ∧ s.thread2.Exited
  | .mainClose2 => s.main = .closeNext

instance (s : State) : DecidablePred (guard s) := fun a => by
  cases a <;> (dsimp only [guard]; infer_instance)

/-- The effects of the steps of `thread1_handler`: `mq_send(mqdes1, &t1[i])`,
    `i++`, `mq_receive(mqdes2, &receive_buff)`, the log entry. -/
def act1 (T : Tables) (s : State) : Action → State
  | .head1 => { s with thread1 := s.thread1.checkHead s.flag T.n .send }
  | .send1 true =>
    { s with thread1 := s.thread1.send true .count, mqdes1 := s.mqdes1.send (T.t1 s.thread1.i) }
  | .send1 false => { s with thread1 := s.thread1.send false .count }
  | .count1 => { s with thread1 := s.thread1.count .call }
  | .call1 true => { s with thread1 := s.thread1.goto .waiting }
  | .call1 false | .receive1 false => { s with thread1 := s.thread1.goto .log }
  | .receive1 true =>
    match s.mqdes2.msgs with
    | [] => s
    | r :: _ => { s with thread1 := s.thread1.receive r, mqdes2 := s.mqdes2.pop }
  | .log1 => { s with thread1 := s.thread1.writeLog .head }
  | .close1 => { s with thread1 := s.thread1.goto .killed, mqdes1 := s.mqdes1.close }
  | _ => s

/-- The effects of the steps of `thread2_handler`: `mq_receive(mqdes1, &receive_buff)`,
    the log entry, `mq_send(mqdes2, &t2[i])`, `i++`. -/
def act2 (T : Tables) (s : State) : Action → State
  | .head2 => { s with thread2 := s.thread2.checkHead s.flag T.n .call }
  | .call2 true => { s with thread2 := s.thread2.goto .waiting }
  | .call2 false | .receive2 false => { s with thread2 := s.thread2.goto .log }
  | .receive2 true =>
    match s.mqdes1.msgs with
    | [] => s
    | r :: _ => { s with thread2 := s.thread2.receive r, mqdes1 := s.mqdes1.pop }
  | .log2 => { s with thread2 := s.thread2.writeLog .send }
  | .send2 true =>
    { s with thread2 := s.thread2.send true .count, mqdes2 := s.mqdes2.send (T.t2 s.thread2.i) }
  | .send2 false => { s with thread2 := s.thread2.send false .count }
  | .count2 => { s with thread2 := s.thread2.count .head }
  | .close2 => { s with thread2 := s.thread2.goto .killed, mqdes2 := s.mqdes2.close }
  | _ => s

def act (T : Tables) (a : Action) (s : State) : State :=
  match a with
  | .sigint => { s with flag := true }
  | .mainClose1 => { s with main := .closeNext, mqdes1 := s.mqdes1.close }
  | .mainClose2 => { s with main := .done, mqdes2 := s.mqdes2.close }
  | .head1 | .send1 _ | .count1 | .call1 _ | .receive1 _ | .log1 | .close1 => act1 T s a
  | .head2 | .call2 _ | .receive2 _ | .log2 | .send2 _ | .count2 | .close2 => act2 T s a

/-- The state in which `main` has opened two empty queues and started both
    handlers; their buffers hold anything. -/
def start (buff1 buff2 : Record) : State :=
  ⟨false, ⟨[], 0⟩, ⟨[], 0⟩, .start buff1, .start buff2, .join⟩

/-- `queues.c` with the tables `T`. -/
def program (T : Tables) : Program State Action where
  init s := ∃ buff1 buff2, s = start buff1 buff2
  guard := guard
  act := act T

instance (T : Tables) (s : State) (a : Action) : Decidable ((program T).guard s a) :=
  inferInstanceAs (Decidable (guard s a))

/-- The steps without a signal and without a call that fails. -/
def Action.Quiet : Action → Prop
  | .sigint => False
  | .send1 ok | .call1 ok | .receive1 ok | .call2 ok | .receive2 ok | .send2 ok => ok = true
  | _ => True

instance : DecidablePred Action.Quiet := fun a => by
  cases a <;> (dsimp only [Action.Quiet]; infer_instance)

/-- The runs without a signal and without a call that fails. -/
def quiet (T : Tables) : Program State Action := (program T).restrict fun _ a => a.Quiet

instance (T : Tables) (s : State) (a : Action) : Decidable ((quiet T).guard s a) :=
  inferInstanceAs (Decidable (guard s a ∧ a.Quiet))

end Apes.Queues
