import Apes.Ipc.Pipes

/-!
# `sockets.c`

The two handlers talk over one TCP connection, which is an ordered stream of bytes
in each direction. A `send` appends one record to a stream; a `recv` asks for one
record and may return fewer bytes, and its result is not looked at. The sockets are
closed by `main` when both handlers have exited.
-/

namespace Apes.Sockets

open Apes

structure State where
  flag : Bool
  -- the bytes under way to `thread2_handler` and to `thread1_handler`
  stream1 : List UInt8
  stream2 : List UInt8
  thread1 : Handler (List UInt8)
  thread2 : Handler (List UInt8)

/-- The steps. The argument of a `recv` is the number of bytes that it returns. -/
inductive Action
  /-- `SIGINT` is handled. -/
  | sigint
  | head1
  | send1
  | call1
  | recv1 (len : ℕ)
  /-- The `recv` is interrupted by the signal. -/
  | interrupt1
  | count1
  | log1
  | head2
  | call2
  | recv2 (len : ℕ)
  | interrupt2
  | log2
  | send2
  | count2
  deriving DecidableEq, Repr

/-- A `recv` of one record can return any number of the bytes that are available, but
    not none: it blocks while there are none, and the connection stays open. -/
def CanReturn (stream : List UInt8) (len : ℕ) : Prop :=
  0 < len ∧ len ≤ recordSize ∧ len ≤ stream.length

instance (stream : List UInt8) (len : ℕ) : Decidable (CanReturn stream len) :=
  inferInstanceAs (Decidable (_ ∧ _))

def guard (s : State) : Action → Prop
  | .sigint => True
  | .head1 => s.thread1.pc = .head
  | .send1 => s.thread1.pc = .send
  | .call1 => s.thread1.pc = .call
  | .recv1 len => s.thread1.pc = .waiting ∧ CanReturn s.stream2 len
  | .interrupt1 => s.thread1.pc = .waiting ∧ s.flag = true
  | .count1 => s.thread1.pc = .count
  | .log1 => s.thread1.pc = .log
  | .head2 => s.thread2.pc = .head
  | .call2 => s.thread2.pc = .call
  | .recv2 len => s.thread2.pc = .waiting ∧ CanReturn s.stream1 len
  | .interrupt2 => s.thread2.pc = .waiting ∧ s.flag = true
  | .log2 => s.thread2.pc = .log
  | .send2 => s.thread2.pc = .send
  | .count2 => s.thread2.pc = .count

instance (s : State) : DecidablePred (guard s) := fun a => by
  cases a <;> (dsimp only [guard]; infer_instance)

/-- A `recv` that delivers `data` and goes on at `next`: the rest of the buffer stays as it
    was. -/
def recvInto (h : Handler (List UInt8)) (data : List UInt8) (next : Pc) :
    Handler (List UInt8) :=
  (Pipes.readInto h data).goto next

/-- The head of the loop. There is nothing to close on the way out. -/
def checkHead (h : Handler (List UInt8)) (flag : Bool) (n : ℕ) (next : Pc) :
    Handler (List UInt8) :=
  { h with pc := if flag then .killed else if h.i = n then .done else next }

/-- The effects of the steps of `thread1_handler`, which makes `i++` before it writes to
    the log. -/
def act1 (T : Tables) (s : State) : Action → State
  | .head1 => { s with thread1 := checkHead s.thread1 s.flag T.n .send }
  | .send1 =>
    { s with
      thread1 := s.thread1.send true .call
      stream1 := s.stream1 ++ (T.t1 s.thread1.i).bytes }
  | .call1 => { s with thread1 := s.thread1.goto .waiting }
  | .recv1 len =>
    { s with
      thread1 := recvInto s.thread1 (s.stream2.take len) .count
      stream2 := s.stream2.drop len }
  | .interrupt1 => { s with thread1 := s.thread1.goto .count }
  | .count1 => { s with thread1 := s.thread1.count .log }
  | .log1 => { s with thread1 := s.thread1.writeLog .head }
  | _ => s

/-- The effects of the steps of `thread2_handler`. -/
def act2 (T : Tables) (s : State) : Action → State
  | .head2 => { s with thread2 := checkHead s.thread2 s.flag T.n .call }
  | .call2 => { s with thread2 := s.thread2.goto .waiting }
  | .recv2 len =>
    { s with
      thread2 := recvInto s.thread2 (s.stream1.take len) .log
      stream1 := s.stream1.drop len }
  | .interrupt2 => { s with thread2 := s.thread2.goto .log }
  | .log2 => { s with thread2 := s.thread2.writeLog .send }
  | .send2 =>
    { s with
      thread2 := s.thread2.send true .count
      stream2 := s.stream2 ++ (T.t2 s.thread2.i).bytes }
  | .count2 => { s with thread2 := s.thread2.count .head }
  | _ => s

def act (T : Tables) (a : Action) (s : State) : State :=
  match a with
  | .sigint => { s with flag := true }
  | .head1 | .send1 | .call1 | .recv1 _ | .interrupt1 | .count1 | .log1 => act1 T s a
  | .head2 | .call2 | .recv2 _ | .interrupt2 | .log2 | .send2 | .count2 => act2 T s a

/-- The state in which the handlers are connected; their buffers hold anything. -/
def start (buff1 buff2 : List UInt8) : State := ⟨false, [], [], .start buff1, .start buff2⟩

/-- `sockets.c` with the tables `T`. -/
def program (T : Tables) : Program State Action where
  init s := ∃ buff1 buff2, buff1.length = recordSize ∧ buff2.length = recordSize ∧
    s = start buff1 buff2
  guard := guard
  act := act T

/-- The runs without a signal. -/
def quiet (T : Tables) : Program State Action := (program T).restrict fun _ a => a ≠ .sigint

instance (T : Tables) (s : State) (a : Action) : Decidable ((quiet T).guard s a) :=
  inferInstanceAs (Decidable (guard s a ∧ a ≠ .sigint))

end Apes.Sockets
