import Apes.Ipc.Handler

/-!
# `shared_memory.c`

Each handler has a record in shared memory that the other one reads: `ptr` for the
commands of `thread1_handler`, `ptr1` for the acknowledgements. The only handshake
is the variable `send`, which `thread2_handler` sets after each acknowledgement and
`thread1_handler` clears after it has read one. A whole-record read or write and an
access to `send` or `flag` are one step each.
-/

namespace Apes.SharedMemory

open Apes

/-- Where `thread1_handler` is. -/
inductive Pc1
  | head
  /-- Before the record is written to `ptr`. -/
  | publish
  /-- At the condition `send == 0` of the inner loop. -/
  | poll
  /-- In the inner loop, before `flag` is checked. -/
  | pollFlag
  /-- Before `ptr1` is read and logged. -/
  | logAck
  /-- Before `send = 0`. -/
  | clear
  /-- Before `i++`. -/
  | count
  | killed
  | done
  deriving DecidableEq, Repr

/-- Where `thread2_handler` is. -/
inductive Pc2
  /-- `main` has not started it yet. -/
  | unborn
  | head
  /-- Before `ptr` is read and logged. -/
  | logCmd
  /-- Before the record is written to `ptr1`. -/
  | publish
  /-- Before `i++`. -/
  | count
  /-- Before `send = 1`. -/
  | set
  | killed
  | done
  deriving DecidableEq, Repr

/-- The variables that the handlers share, and of each handler its program counter,
    its `i` and what it has logged. -/
structure State where
  flag : Bool
  send : Bool
  ptr : Record
  ptr1 : Record
  pc1 : Pc1
  i1 : ℕ
  logged1 : List Record
  pc2 : Pc2
  i2 : ℕ
  logged2 : List Record

inductive Action
  /-- `SIGINT` is handled. -/
  | sigint
  | head1
  | publish1
  | poll1
  | pollFlag1
  | logAck1
  | clear1
  | count1
  /-- `main` starts `thread2_handler`. -/
  | start2
  | head2
  | logCmd2
  | publish2
  | count2
  | set2
  deriving DecidableEq, Repr

def guard (s : State) : Action → Prop
  | .sigint => True
  | .head1 => s.pc1 = .head
  | .publish1 => s.pc1 = .publish
  | .poll1 => s.pc1 = .poll
  | .pollFlag1 => s.pc1 = .pollFlag
  | .logAck1 => s.pc1 = .logAck
  | .clear1 => s.pc1 = .clear
  | .count1 => s.pc1 = .count
  | .start2 => s.pc2 = .unborn
  | .head2 => s.pc2 = .head
  | .logCmd2 => s.pc2 = .logCmd
  | .publish2 => s.pc2 = .publish
  | .count2 => s.pc2 = .count
  | .set2 => s.pc2 = .set

instance (s : State) : DecidablePred (guard s) := fun a => by
  cases a <;> (dsimp only [guard]; infer_instance)

/-- The effects of the steps. -/
def act (T : Tables) (a : Action) (s : State) : State :=
  match a with
  | .sigint => { s with flag := true }
  | .head1 =>
    { s with pc1 := if s.flag then .killed else if s.i1 = T.n then .done else .publish }
  | .publish1 => { s with ptr := T.t1 s.i1, pc1 := .poll }
  | .poll1 => { s with pc1 := if s.send then .logAck else .pollFlag }
  | .pollFlag1 => { s with pc1 := if s.flag then .killed else .poll }
  | .logAck1 => { s with logged1 := s.logged1 ++ [s.ptr1], pc1 := .clear }
  | .clear1 => { s with send := false, pc1 := .count }
  | .count1 => { s with i1 := s.i1 + 1, pc1 := .head }
  | .start2 => { s with pc2 := .head }
  | .head2 =>
    { s with pc2 := if s.flag then .killed else if s.i2 = T.n then .done else .logCmd }
  | .logCmd2 => { s with logged2 := s.logged2 ++ [s.ptr], pc2 := .publish }
  | .publish2 => { s with ptr1 := T.t2 s.i2, pc2 := .count }
  | .count2 => { s with i2 := s.i2 + 1, pc2 := .set }
  | .set2 => { s with send := true, pc2 := .head }

/-- The state in which `main` has mapped the two records, which hold anything, and
    started `thread1_handler`. -/
def start (ptr ptr1 : Record) : State :=
  ⟨false, false, ptr, ptr1, .head, 0, [], .unborn, 0, []⟩

/-- `shared_memory.c` with the tables `T`. -/
def program (T : Tables) : Program State Action where
  init s := ∃ ptr ptr1, s = start ptr ptr1
  guard := guard
  act := act T

instance (T : Tables) (s : State) (a : Action) : Decidable ((program T).guard s a) :=
  inferInstanceAs (Decidable (guard s a))

/-- The runs without a signal. -/
def quiet (T : Tables) : Program State Action := (program T).restrict fun _ a => a ≠ .sigint

instance (T : Tables) (s : State) (a : Action) : Decidable ((quiet T).guard s a) :=
  inferInstanceAs (Decidable (guard s a ∧ a ≠ .sigint))

/-- How many records `thread1_handler` has published. -/
def State.published (s : State) : ℕ :=
  match s.pc1 with
  | .poll | .pollFlag | .logAck | .clear | .count => s.i1 + 1
  | .head | .publish | .killed | .done => s.i1

/-- How many acknowledgements `thread1_handler` has taken: how often it has cleared
    `send`. -/
def State.taken (s : State) : ℕ :=
  match s.pc1 with
  | .count => s.i1 + 1
  | _ => s.i1

/-- How often `thread2_handler` has set `send`. -/
def State.sets (s : State) : ℕ :=
  match s.pc2 with
  | .set => s.i2 - 1
  | _ => s.i2

/-- The runs without a signal in which `main` starts `thread2_handler` only after the
    first record has been published. -/
def delayed (T : Tables) : Program State Action :=
  (quiet T).restrict fun s a => a = .start2 → 0 < s.published

instance (T : Tables) (s : State) (a : Action) : Decidable ((delayed T).guard s a) :=
  inferInstanceAs (Decidable ((quiet T).guard s a ∧ (a = .start2 → 0 < s.published)))

/-! ## Rounds without a signal -/

/-- The counter of `thread1_handler` in a run of `n` rounds without a signal. -/
def Rounds1 (n : ℕ) (pc : Pc1) (i : ℕ) : Prop :=
  match pc with
  | .head => i ≤ n
  | .publish | .poll | .pollFlag | .logAck | .clear | .count => i < n
  | .done => i = n
  | .killed => False

/-- The counter of `thread2_handler` in a run of `n` rounds without a signal. -/
def Rounds2 (n : ℕ) (pc : Pc2) (i : ℕ) : Prop :=
  match pc with
  | .unborn => i = 0
  | .head => i ≤ n
  | .logCmd | .publish | .count => i < n
  | .set => 0 < i ∧ i ≤ n
  | .done => i = n
  | .killed => False

structure Rounds (T : Tables) (s : State) : Prop where
  flag : s.flag = false
  rounds1 : Rounds1 T.n s.pc1 s.i1
  rounds2 : Rounds2 T.n s.pc2 s.i2

variable {T : Tables} {s : State} {a : Action}

theorem rounds_start (T : Tables) (ptr ptr1 : Record) : Rounds T (start ptr ptr1) :=
  ⟨rfl, Nat.zero_le _, rfl⟩

theorem Rounds.step (hr : Rounds T s) (hg : guard s a) (hq : a ≠ .sigint) :
    Rounds T (act T a s) := by
  obtain ⟨hflag, h1, h2⟩ := hr
  cases a with
  | sigint => exact absurd rfl hq
  | head1 =>
    simp only [Rounds1, show s.pc1 = .head from hg] at h1
    refine ⟨hflag, ?_, h2⟩
    by_cases hn : s.i1 = T.n
    · simp [act, hflag, hn, Rounds1]
    · simpa [act, hflag, hn, Rounds1] using lt_of_le_of_ne h1 hn
  | poll1 =>
    simp only [Rounds1, show s.pc1 = .poll from hg] at h1
    refine ⟨hflag, ?_, h2⟩
    cases hs : s.send <;> simpa [act, hs, Rounds1] using h1
  | pollFlag1 =>
    simp only [Rounds1, show s.pc1 = .pollFlag from hg] at h1
    refine ⟨hflag, ?_, h2⟩
    simpa [act, hflag, Rounds1] using h1
  | publish1 | logAck1 | clear1 | count1 =>
    simp only [guard] at hg
    simp only [Rounds1, hg] at h1
    exact ⟨hflag, h1, h2⟩
  | head2 =>
    simp only [Rounds2, show s.pc2 = .head from hg] at h2
    refine ⟨hflag, h1, ?_⟩
    by_cases hn : s.i2 = T.n
    · simp [act, hflag, hn, Rounds2]
    · simpa [act, hflag, hn, Rounds2] using lt_of_le_of_ne h2 hn
  | start2 =>
    simp only [Rounds2, show s.pc2 = .unborn from hg] at h2
    exact ⟨hflag, h1, show s.i2 ≤ T.n by omega⟩
  | count2 =>
    simp only [Rounds2, show s.pc2 = .count from hg] at h2
    exact ⟨hflag, h1, Nat.succ_pos _, h2⟩
  | set2 =>
    simp only [Rounds2, show s.pc2 = .set from hg] at h2
    exact ⟨hflag, h1, h2.2⟩
  | logCmd2 | publish2 =>
    simp only [guard] at hg
    simp only [Rounds2, hg] at h2
    exact ⟨hflag, h1, h2⟩

theorem rounds_of_reachable (hs : (quiet T).Reachable s) : Rounds T s := by
  refine hs.invariant ?_ fun s a _ hr hg => hr.step hg.1 hg.2
  rintro s ⟨ptr, ptr1, rfl⟩
  exact rounds_start T ptr ptr1

end Apes.SharedMemory
