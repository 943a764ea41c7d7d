import Apes.Ipc.Record
import Apes.Lib.Program

/-!
# The two handlers

`thread1_handler` and `thread2_handler` of `queues.c` and of `pipes.c` are loops
of the same parts: the check at the head of the loop, one send, one receive, one
line in the log, and `i++`. They differ in the order of the parts, in the channel,
and in what they close when `SIGINT` has set `flag`.
-/

namespace Apes

/-- The number of rounds, and the two tables of that many records. -/
structure Tables where
  n : ℕ
  t1 : ℕ → Record
  t2 : ℕ → Record

/-- Which of the two handlers. -/
inductive Role
  | first
  | second

namespace Role

def other : Role → Role
  | .first => .second
  | .second => .first

@[simp] theorem other_other (r : Role) : r.other.other = r := by
  cases r <;> rfl

theorem eq_or_eq_other (r r' : Role) : r' = r ∨ r' = r.other := by
  cases r <;> cases r' <;> first | exact Or.inl rfl | exact Or.inr rfl

end Role

/-- The table that a handler sends. -/
def Tables.records (T : Tables) : Role → ℕ → Record
  | .first => T.t1
  | .second => T.t2

/-- Where a handler is. -/
inductive Pc
  /-- At the head of the loop, before `flag` and `i` are checked. -/
  | head
  /-- Before the send. -/
  | send
  /-- Before `i++`. -/
  | count
  /-- Before the call that receives. -/
  | call
  /-- Inside the call that receives, blocked or about to return. -/
  | waiting
  /-- Before the received record is logged. -/
  | log
  /-- Before the first descriptor is closed on the way out after a signal. -/
  | close
  /-- Before the second descriptor is closed, where there are two. -/
  | closeNext
  /-- Exited after a signal. -/
  | killed
  /-- Exited after the last round. -/
  | done
  deriving DecidableEq, Repr

/-- A handler: its program counter, its locals `i` and `receive_buff`, and what
    it has done so far. -/
structure Handler (β : Type) where
  pc : Pc
  i : ℕ
  buff : β
  -- how many sends have been carried out
  sent : ℕ
  -- what the receives have delivered, and what has been logged
  got : List β
  logged : List β

namespace Handler

variable {β : Type}

/-- A handler that is about to enter its loop; `buff` is not initialised. -/
def start (buff : β) : Handler β := ⟨.head, 0, buff, 0, [], []⟩

def Exited (h : Handler β) : Prop := h.pc = .killed ∨ h.pc = .done

instance (h : Handler β) : Decidable h.Exited := inferInstanceAs (Decidable (_ ∨ _))

/-- The head of the loop: leave after a signal or after `n` rounds, else go on at
    `next`. -/
def checkHead (h : Handler β) (flag : Bool) (n : ℕ) (next : Pc) : Handler β :=
  { h with pc := if flag then .close else if h.i = n then .done else next }

/-- A send; `ok` tells whether it was carried out. -/
def send (h : Handler β) (ok : Bool) (next : Pc) : Handler β :=
  { h with pc := next, sent := if ok then h.sent + 1 else h.sent }

/-- `i++` -/
def count (h : Handler β) (next : Pc) : Handler β := { h with pc := next, i := h.i + 1 }

/-- A receive that delivers `b`. -/
def receive (h : Handler β) (b : β) : Handler β :=
  { h with pc := .log, buff := b, got := h.got ++ [b] }

/-- The contents of `receive_buff` go to the log. -/
def writeLog (h : Handler β) (next : Pc) : Handler β :=
  { h with pc := next, logged := h.logged ++ [h.buff] }

def goto (h : Handler β) (next : Pc) : Handler β := { h with pc := next }

end Handler

end Apes
