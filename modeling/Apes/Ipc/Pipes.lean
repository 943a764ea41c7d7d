import Apes.Ipc.Handler
import Apes.Lib.Slice

/-!
# `pipes.c`

The two handlers talk over two pipes. A `write` passes the address of one record
and the size of the whole table: the write of round `i` copies the table from its
record `i` on and then whatever lies behind the table. A `read` asks for one
record. Writes are no longer than `PIPE_BUF` and therefore atomic, and the pipes
are large enough for all of them.
-/

namespace Apes.Pipes

open Apes

/-- The byte at an offset from the start of a table of `n` records; `past` is what
    lies behind the table. -/
def tableByte (n : ℕ) (t : ℕ → Record) (past : ℕ → UInt8) (offset : ℕ) : UInt8 :=
  if offset < recordSize * n then
    (t (offset / recordSize)).bytes.getD (offset % recordSize) 0
  else past offset

/-- A pipe and its two descriptors. -/
structure Pipe where
  bytes : List UInt8
  -- the offsets in the table of the sender from which all bytes so far were read
  sources : List ℕ
  readOpen : Bool
  writeOpen : Bool

namespace Pipe

/-- `write(fd[1], &t[i], sizeof(t))` for a table of `n` records -/
def write (p : Pipe) (n : ℕ) (t : ℕ → Record) (past : ℕ → UInt8) (i : ℕ) : Pipe :=
  { p with
    bytes := p.bytes ++ slice (tableByte n t past) (recordSize * i) (recordSize * n)
    sources := p.sources ++ List.range' (recordSize * i) (recordSize * n) }

/-- What `read(fd[0], &receive_buff, sizeof(receive_buff))` returns. -/
def peek (p : Pipe) : List UInt8 := p.bytes.take recordSize

def read (p : Pipe) : Pipe := { p with bytes := p.bytes.drop recordSize }

end Pipe

/-- A `read` that delivers `data`: the rest of the buffer stays as it was. -/
def readInto (h : Handler (List UInt8)) (data : List UInt8) : Handler (List UInt8) :=
  { h with pc := .log, buff := data ++ h.buff.drop data.length, got := h.got ++ [data] }

structure State where
  flag : Bool
  fd1 : Pipe
  fd2 : Pipe
  thread1 : Handler (List UInt8)
  thread2 : Handler (List UInt8)

/-- The steps. The argument of a write is what lies behind the table at that
    moment; a read with the argument `false` is interrupted by the signal. -/
inductive Action
  /-- `SIGINT` is handled. -/
  | sigint
  | head1
  | write1 (past : ℕ → UInt8)
  | count1
  | call1
  | read1 (ok : Bool)
  | log1
  | closeRead1
  | closeWrite1
  | head2
  | call2
  | read2 (ok : Bool)
  | log2
  | write2 (past : ℕ → UInt8)
  | count2
  | closeRead2
  | closeWrite2

/-- A `read` returns when there are bytes or when no descriptor for writing is
    open. -/
def CanRead (p : Pipe) : Prop := p.bytes ≠ [] ∨ p.writeOpen = false

instance (p : Pipe) : Decidable (CanRead p) := inferInstanceAs (Decidable (_ ∨ _))

def guard (s : State) : Action → Prop
  | .sigint => True
  | .head1 => s.thread1.pc = .head
  | .write1 _ => s.thread1.pc = .send
  | .count1 => s.thread1.pc = .count
  | .call1 => s.thread1.pc = .call
  | .read1 ok => s.thread1.pc = .waiting ∧ if ok then CanRead s.fd2 else s.flag = true
  | .log1 => s.thread1.pc = .log
  | .closeRead1 => s.thread1.pc = .close
  | .closeWrite1 => s.thread1.pc = .closeNext
  | .head2 => s.thread2.pc = .head
  | .call2 => s.thread2.pc = .call
  | .read2 ok => s.thread2.pc = .waiting ∧ if ok then CanRead s.fd1 else s.flag = true
  | .log2 => s.thread2.pc = .log
  | .write2 _ => s.thread2.pc = .send
  | .count2 => s.thread2.pc = .count
  | .closeRead2 => s.thread2.pc = .close
  | .closeWrite2 => s.thread2.pc = .closeNext

instance (s : State) : DecidablePred (guard s) := fun a => by
  cases a <;> (dsimp only [guard]; infer_instance)

/-- The effects of the steps of `thread1_handler`. -/
def act1 (T : Tables) (s : State) : Action → State
  | .head1 => { s with thread1 := s.thread1.checkHead s.flag T.n .send }
  | .write1 past =>
    if s.fd1.writeOpen then
      { s with
        thread1 := s.thread1.send true .count
        fd1 := s.fd1.write T.n T.t1 past s.thread1.i }
    else { s with thread1 := s.thread1.send false .count }
  | .count1 => { s with thread1 := s.thread1.count .call }
  -- a closed descriptor: `read` returns -1 at once
  | .call1 => { s with thread1 := s.thread1.goto (if s.fd2.readOpen then .waiting else .log) }
  | .read1 true =>
    -- no bytes and no writer: `read` returns 0
    if s.fd2.bytes = [] then { s with thread1 := s.thread1.goto .log }
    else { s with thread1 := readInto s.thread1 s.fd2.peek, fd2 := s.fd2.read }
  | .read1 false => { s with thread1 := s.thread1.goto .log }
  | .log1 => { s with thread1 := s.thread1.writeLog .head }
  | .closeRead1 =>
    { s with thread1 := s.thread1.goto .closeNext, fd1 := { s.fd1 with readOpen := false } }
  | .closeWrite1 =>
    { s with thread1 := s.thread1.goto .killed, fd1 := { s.fd1 with writeOpen := false } }
  | _ => s

/-- The effects of the steps of `thread2_handler`. -/
def act2 (T : Tables) (s : State) : Action → State
  | .head2 => { s with thread2 := s.thread2.checkHead s.flag T.n .call }
  | .call2 => { s with thread2 := s.thread2.goto (if s.fd1.readOpen then .waiting else .log) }
  | .read2 true =>
    if s.fd1.bytes = [] then { s with thread2 := s.thread2.goto .log }
    else { s with thread2 := readInto s.thread2 s.fd1.peek, fd1 := s.fd1.read }
  | .read2 false => { s with thread2 := s.thread2.goto .log }
  | .log2 => { s with thread2 := s.thread2.writeLog .send }
  | .write2 past =>
    if s.fd2.writeOpen then
      { s with
        thread2 := s.thread2.send true .count
        fd2 := s.fd2.write T.n T.t2 past s.thread2.i }
    else { s with thread2 := s.thread2.send false .count }
  | .count2 => { s with thread2 := s.thread2.count .head }
  | .closeRead2 =>
    { s with thread2 := s.thread2.goto .closeNext, fd2 := { s.fd2 with readOpen := false } }
  | .closeWrite2 =>
    { s with thread2 := s.thread2.goto .killed, fd2 := { s.fd2 with writeOpen := false } }
  | _ => s

def act (T : Tables) (a : Action) (s : State) : State :=
  match a with
  | .sigint => { s with flag := true }
  | .head1 | .write1 _ | .count1 | .call1 | .read1 _ | .log1 | .closeRead1 | .closeWrite1 =>
    act1 T s a
  | .head2 | .call2 | .read2 _ | .log2 | .write2 _ | .count2 | .closeRead2 | .closeWrite2 =>
    act2 T s a

/-- The state in which `main` has made the pipes and started both handlers. -/
def start (buff1 buff2 : List UInt8) : State :=
  ⟨false, ⟨[], [], true, true⟩, ⟨[], [], true, true⟩, .start buff1, .start buff2⟩

/-- `pipes.c` with the tables `T`. -/
def program (T : Tables) : Program State Action where
  init s := ∃ buff1 buff2, buff1.length = recordSize ∧ buff2.length = recordSize ∧
    s = start buff1 buff2
  guard := guard
  act := act T

def Action.Quiet : Action → Prop
  | .sigint => False
  | _ => True

instance : DecidablePred Action.Quiet := fun a => by
  cases a <;> (dsimp only [Action.Quiet]; infer_instance)

/-- The runs without a signal. -/
def quiet (T : Tables) : Program State Action := (program T).restrict fun _ a => a.Quiet

instance (T : Tables) (s : State) (a : Action) : Decidable ((quiet T).guard s a) :=
  inferInstanceAs (Decidable (guard s a ∧ a.Quiet))

end Apes.Pipes
