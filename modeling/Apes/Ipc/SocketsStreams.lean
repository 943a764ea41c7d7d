import Apes.Ipc.PipesStream
import Apes.Ipc.Sockets
import Mathlib.Algebra.Group.Action.Defs
import Mathlib.Algebra.Order.BigOperators.Group.List

/-!
# The streams of `sockets.c`

A `recv` may return any part of a record, and a signal may interrupt it. The bytes come out
of each stream as they went in, and without a signal both handlers make all their rounds,
whatever the parts are.
-/

namespace Apes.Sockets

open Apes

variable {T : Tables} {s : State} {a : Action} {r : Role} {t : ℕ → Record} {n : ℕ}

/-! ## The bytes of a stream -/

theorem encode_concat (t : ℕ → Record) (m : ℕ) :
    Pipes.encode t 0 (m + 1) = Pipes.encode t 0 m ++ (t m).bytes := by
  rw [Pipes.encode, Pipes.encode, List.range'_1_concat, List.flatMap_append,
    List.flatMap_singleton, Nat.zero_add]

/-- What has come out of a stream, and what is still in it, are the first `sent` records of
    the table `t`; a `recv` has delivered at least one byte and at most a record. -/
structure Conserved (t : ℕ → Record) (sent : ℕ) (got : List (List UInt8))
    (stream : List UInt8) : Prop where
  bytes : got.flatten ++ stream = Pipes.encode t 0 sent
  parts : ∀ part ∈ got, part ≠ [] ∧ part.length ≤ recordSize

namespace Conserved

variable {sent len : ℕ} {got : List (List UInt8)} {stream : List UInt8}

theorem empty (t : ℕ → Record) : Conserved t 0 [] [] := ⟨rfl, by simp⟩

theorem send (h : Conserved t sent got stream) :
    Conserved t (sent + 1) got (stream ++ (t sent).bytes) where
  bytes := by rw [encode_concat, ← h.bytes, List.append_assoc]
  parts := h.parts

theorem recv (h : Conserved t sent got stream) (hcan : CanReturn stream len) :
    Conserved t sent (got ++ [stream.take len]) (stream.drop len) where
  bytes := by
    rw [List.flatten_append, List.flatten_singleton, List.append_assoc, List.take_append_drop,
      h.bytes]
  parts := by
    intro part hpart
    rcases List.mem_append.mp hpart with hold | hnew
    · exact h.parts part hold
    · obtain rfl := List.mem_singleton.mp hnew
      have hlen : (stream.take len).length = len := List.length_take_of_le hcan.2.2
      exact ⟨List.ne_nil_of_length_pos (hcan.1.trans_eq hlen.symm), hlen.trans_le hcan.2.1⟩

/-- A stream runs empty only after at least as many receives as sends. -/
theorem le_of_nil (h : Conserved t sent got []) : sent ≤ got.length := by
  have hlen : got.flatten.length = recordSize * sent := by
    rw [← Pipes.encode_length t 0 sent, ← h.bytes, List.append_nil]
  have hle : got.flatten.length ≤ recordSize * got.length := by
    rw [List.length_flatten, Nat.mul_comm]
    have hsum := List.sum_le_card_nsmul (got.map List.length) recordSize (by
      intro m hm
      obtain ⟨part, hpart, rfl⟩ := List.mem_map.mp hm
      exact (h.parts part hpart).2)
    rwa [List.length_map, smul_eq_mul] at hsum
  exact Nat.le_of_mul_le_mul_left (hlen ▸ hle) (by decide)

end Conserved

/-! ## A step of one handler -/

def State.thread (s : State) : Role → Handler (List UInt8)
  | .first => s.thread1
  | .second => s.thread2

/-- The stream that a handler sends to. -/
def State.stream (s : State) : Role → List UInt8
  | .first => s.stream1
  | .second => s.stream2

/-- The steps of a handler. -/
def Action.By : Role → Action → Prop
  | .first, .head1 | .first, .send1 | .first, .call1 | .first, .recv1 _ | .first, .interrupt1
  | .first, .count1 | .first, .log1 => True
  | .second, .head2 | .second, .call2 | .second, .recv2 _ | .second, .interrupt2 | .second, .log2
  | .second, .send2 | .second, .count2 => True
  | _, _ => False

/-- How the parts of the loop follow each other. -/
def next : Role → Pc → Pc
  | .first, .head => .send
  | .first, .send => .call
  | .first, .waiting => .count
  | .first, .count => .log
  | .first, .log => .head
  | .second, .head => .call
  | .second, .waiting => .log
  | .second, .log => .send
  | .second, .send => .count
  | .second, .count => .head
  | _, .call => .waiting
  | _, pc => pc

/-- What a step of a handler makes of the handler, of the stream that it sends to and of the
    one that it receives from. -/
inductive Moves (r : Role) (flag : Bool) (n : ℕ) (t : ℕ → Record) (h : Handler (List UInt8))
    (own peer : List UInt8) : Handler (List UInt8) → List UInt8 → List UInt8 → Prop
  | head (hpc : h.pc = .head) :
    Moves r flag n t h own peer (checkHead h flag n (next r .head)) own peer
  | send (hpc : h.pc = .send) :
    Moves r flag n t h own peer (h.send true (next r .send)) (own ++ (t h.i).bytes) peer
  | call (hpc : h.pc = .call) : Moves r flag n t h own peer (h.goto .waiting) own peer
  | recv {len : ℕ} (hpc : h.pc = .waiting) (hcan : CanReturn peer len) :
    Moves r flag n t h own peer (recvInto h (peer.take len) (next r .waiting)) own (peer.drop len)
  | interrupt (hpc : h.pc = .waiting) :
    Moves r flag n t h own peer (h.goto (next r .waiting)) own peer
  | count (hpc : h.pc = .count) : Moves r flag n t h own peer (h.count (next r .count)) own peer
  | log (hpc : h.pc = .log) : Moves r flag n t h own peer (h.writeLog (next r .log)) own peer

/-- What a step of a handler does, whichever of the two it is. -/
theorem act_moves (hg : guard s a) (ha : a.By r) :
    Moves r s.flag T.n (T.records r) (s.thread r) (s.stream r) (s.stream r.other)
      ((act T a s).thread r) ((act T a s).stream r) ((act T a s).stream r.other) := by
  cases r with
  | first =>
    cases a with
    | head1 => exact .head hg
    | send1 => exact .send hg
    | call1 => exact .call hg
    | recv1 len => exact .recv hg.1 hg.2
    | interrupt1 => exact .interrupt hg.1
    | count1 => exact .count hg
    | log1 => exact .log hg
    | _ => exact ha.elim
  | second =>
    cases a with
    | head2 => exact .head hg
    | call2 => exact .call hg
    | recv2 len => exact .recv hg.1 hg.2
    | interrupt2 => exact .interrupt hg.1
    | log2 => exact .log hg
    | send2 => exact .send hg
    | count2 => exact .count hg
    | _ => exact ha.elim

/-- A handler is left alone by all steps but its own. -/
theorem thread_act (ha : ¬ a.By r) : (act T a s).thread r = s.thread r := by
  cases r <;> cases a <;> first | rfl | exact absurd trivial ha

theorem Action.By.not_other (ha : a.By r) : ¬ a.By r.other := by
  cases r <;> cases a <;> first | exact ha.elim | exact id

/-- How many sends a handler is ahead of its `i`. -/
def ahead : Role → Pc → ℕ
  | .first, .call | .first, .waiting | .first, .count | .second, .count => 1
  | _, _ => 0

/-- The sends of a handler, whatever its receives return. -/
def Sends (r : Role) (h : Handler (List UInt8)) : Prop := h.sent = h.i + ahead r h.pc

namespace Moves

variable {flag : Bool} {h h' : Handler (List UInt8)} {own own' peer peer' : List UInt8}

theorem sends (hm : Moves r flag n t h own peer h' own' peer') (hs : Sends r h) : Sends r h' := by
  cases hm with
  | head hpc =>
    simp only [Sends, hpc] at hs
    simp only [Sends, checkHead]
    cases flag with
    | true => cases r <;> exact hs
    | false => by_cases hn : h.i = n <;> cases r <;> simpa [hn, ahead, next] using hs
  | send hpc =>
    simp only [Sends, hpc] at hs
    cases r <;> exact congrArg (· + 1) hs
  | call hpc | recv hpc | interrupt hpc | count hpc | log hpc =>
    simp only [Sends, hpc] at hs
    cases r <;> exact hs

/-- A send appends a record to the own stream, a receive takes a part from the other one. -/
theorem streams (hm : Moves r flag n t h own peer h' own' peer') (hs : Sends r h)
    {t' : ℕ → Record} {sent : ℕ} {got : List (List UInt8)} (hown : Conserved t h.sent got own)
    (hpeer : Conserved t' sent h.got peer) :
    Conserved t h'.sent got own' ∧ Conserved t' sent h'.got peer' := by
  cases hm with
  | send hpc =>
    have hi : h.sent = h.i := by
      simp only [Sends, hpc] at hs
      cases r <;> exact hs
    rw [← hi]
    exact ⟨hown.send, hpeer⟩
  | recv hpc hcan => exact ⟨hown, hpeer.recv hcan⟩
  | head | call | interrupt | count | log => exact ⟨hown, hpeer⟩

end Moves

structure Streams (T : Tables) (s : State) : Prop where
  sends (r : Role) : Sends r (s.thread r)
  stream (r : Role) :
    Conserved (T.records r) (s.thread r).sent (s.thread r.other).got (s.stream r)

namespace Streams

theorem start (T : Tables) (buff1 buff2 : List UInt8) : Streams T (start buff1 buff2) where
  sends r := by cases r <;> rfl
  stream r := by cases r <;> exact Conserved.empty _

/-- A step of one handler. -/
theorem moves (hi : Streams T s) (hg : guard s a) (ha : a.By r) : Streams T (act T a s) := by
  have hm := act_moves (T := T) hg ha
  have hsame := thread_act (T := T) (s := s) ha.not_other
  have hother := hi.stream r.other
  rw [Role.other_other] at hother
  obtain ⟨hown, hpeer⟩ := hm.streams (hi.sends r) (hi.stream r) hother
  constructor
  · intro r'
    rcases r.eq_or_eq_other r' with rfl | rfl
    · exact hm.sends (hi.sends r')
    · rw [hsame]
      exact hi.sends r.other
  · intro r'
    rcases r.eq_or_eq_other r' with rfl | rfl
    · rw [hsame]
      exact hown
    · rw [hsame, Role.other_other]
      exact hpeer

theorem act (hi : Streams T s) (hg : guard s a) : Streams T (act T a s) := by
  cases a with
  | sigint => exact ⟨hi.sends, hi.stream⟩
  | head1 | send1 | call1 | recv1 | interrupt1 | count1 | log1 =>
    exact hi.moves (r := .first) hg trivial
  | head2 | call2 | recv2 | interrupt2 | log2 | send2 | count2 =>
    exact hi.moves (r := .second) hg trivial

theorem of_reachable (hs : (program T).Reachable s) : Streams T s := by
  refine hs.invariant ?_ fun _ _ _ hi hg => hi.act hg
  rintro _ ⟨buff1, buff2, -, -, rfl⟩
  exact start T buff1 buff2

end Streams

/-- In every run, whatever part of a record a `recv` returns and whenever the signals come,
    the bytes that have come out of a stream, followed by those still in it, are the records
    that were sent, in their order. -/
theorem streams_conserved (T : Tables) :
    ∀ s, (program T).Reachable s →
      Conserved T.t1 s.thread1.sent s.thread2.got s.stream1 ∧
        Conserved T.t2 s.thread2.sent s.thread1.got s.stream2 := by
  intro s hs
  have hi := Streams.of_reachable hs
  exact ⟨hi.stream .first, hi.stream .second⟩

theorem streams_conserved_one_byte :
    ∃ s, (quiet ⟨10, fun _ => default, fun _ => default⟩).exec
        [.head1, .send1, .head2, .call2, .recv2 1]
        (start (List.replicate recordSize 1) (List.replicate recordSize 1)) = some s ∧
      s.thread2.got.flatten ++ s.stream1 = Pipes.encode (fun _ => default) 0 1 := by
  refine ⟨_, rfl, ?_⟩
  have hinit : (quiet ⟨10, fun _ => default, fun _ => default⟩).Reachable
      (start (List.replicate recordSize 1) (List.replicate recordSize 1)) :=
    .init ⟨_, _, List.length_replicate, List.length_replicate, rfl⟩
  have hreach := hinit.run
    (Program.run_of_exec _ [.head1, .send1, .head2, .call2, .recv2 1] _ rfl)
  exact (streams_conserved ⟨10, fun _ => default, fun _ => default⟩ _ hreach.of_restrict).1.bytes

end Apes.Sockets
