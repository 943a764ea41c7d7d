import Apes.Ipc.SharedMemory

/-!
# Shutting `shared_memory.c` down

Each handler tests `flag` at the head of its loop, and `thread1_handler` also in the inner
loop in which it waits for `send`. Once `SIGINT` has been handled neither of them waits for
the other one, and each finishes the round it is in.
-/

namespace Apes.SharedMemory

open Apes

variable {T : Tables} {s : State} {a : Action}

def State.Exited (s : State) : Prop :=
  (s.pc1 = .killed ∨ s.pc1 = .done) ∧ (s.pc2 = .killed ∨ s.pc2 = .done)

instance (s : State) : Decidable s.Exited := inferInstanceAs (Decidable (_ ∧ _))

/-- How many steps `thread1_handler` still makes at most when `flag` is set. -/
def left1 : Pc1 → ℕ
  | .publish => 6
  | .poll => 5
  | .logAck => 4
  | .clear => 3
  | .count => 2
  | .head | .pollFlag => 1
  | .killed | .done => 0

/-- How many steps `thread2_handler` still makes at most when `flag` is set. -/
def left2 : Pc2 → ℕ
  | .logCmd => 5
  | .publish => 4
  | .count => 3
  | .unborn | .set => 2
  | .head => 1
  | .killed | .done => 0

/-- How many records `thread1_handler` still logs at most when `flag` is set. -/
def toLog1 : Pc1 → ℕ
  | .publish | .poll | .logAck => 1
  | _ => 0

/-- How many records `thread2_handler` still logs at most when `flag` is set. -/
def toLog2 : Pc2 → ℕ
  | .logCmd => 1
  | _ => 0

def left (s : State) : ℕ := left1 s.pc1 + left2 s.pc2

theorem flag_act (hflag : s.flag = true) : (act T a s).flag = true := by
  cases a <;> first | exact hflag | rfl

theorem left_act (hflag : s.flag = true) (hg : guard s a) (hown : a ≠ .sigint) :
    left (act T a s) < left s := by
  cases a with
  | sigint => exact absurd rfl hown
  | head1 | pollFlag1 =>
    simp only [guard] at hg
    simp [left, act, hflag, hg, left1]
  | poll1 =>
    simp only [guard] at hg
    cases hsend : s.send <;> simp [left, act, hsend, hg, left1]
  | publish1 | logAck1 | clear1 | count1 =>
    simp only [guard] at hg
    simp [left, act, hg, left1]
  | head2 =>
    simp only [guard] at hg
    simp [left, act, hflag, hg, left2]
  | start2 | logCmd2 | publish2 | count2 | set2 =>
    simp only [guard] at hg
    simp [left, act, hg, left2]

/-- What a handler has logged, together with what it may still log, does not grow. -/
theorem toLog_act (hflag : s.flag = true) (hg : guard s a) :
    (act T a s).logged1.length + toLog1 (act T a s).pc1 ≤ s.logged1.length + toLog1 s.pc1 ∧
      (act T a s).logged2.length + toLog2 (act T a s).pc2 ≤
        s.logged2.length + toLog2 s.pc2 := by
  cases a with
  | sigint => exact ⟨le_rfl, le_rfl⟩
  | poll1 =>
    simp only [guard] at hg
    cases hsend : s.send <;> simp [act, hsend, hg, toLog1]
  | head1 | pollFlag1 | publish1 | logAck1 | clear1 | count1 =>
    simp only [guard] at hg
    simp [act, hflag, hg, toLog1]
  | head2 | start2 | logCmd2 | publish2 | count2 | set2 =>
    simp only [guard] at hg
    simp [act, hflag, hg, toLog2]

/-- A state in which no handler can go on is one in which both have exited. -/
theorem exited_of_stuck (hstuck : ∀ a, guard s a → a = .sigint) : s.Exited := by
  have hno (a : Action) (ha : a ≠ .sigint) : ¬ guard s a := fun hg => ha (hstuck a hg)
  constructor
  · cases h : s.pc1 with
    | head => exact absurd h (hno .head1 (by decide))
    | publish => exact absurd h (hno .publish1 (by decide))
    | poll => exact absurd h (hno .poll1 (by decide))
    | pollFlag => exact absurd h (hno .pollFlag1 (by decide))
    | logAck => exact absurd h (hno .logAck1 (by decide))
    | clear => exact absurd h (hno .clear1 (by decide))
    | count => exact absurd h (hno .count1 (by decide))
    | killed => exact Or.inl rfl
    | done => exact Or.inr rfl
  · cases h : s.pc2 with
    | unborn => exact absurd h (hno .start2 (by decide))
    | head => exact absurd h (hno .head2 (by decide))
    | logCmd => exact absurd h (hno .logCmd2 (by decide))
    | publish => exact absurd h (hno .publish2 (by decide))
    | count => exact absurd h (hno .count2 (by decide))
    | set => exact absurd h (hno .set2 (by decide))
    | killed => exact Or.inl rfl
    | done => exact Or.inr rfl

/-- After `SIGINT`, wherever the handlers are, they make at most eleven more steps, each logs
    at most one more record, and they do not stop before both have exited. -/
theorem exits_after_sigint (T : Tables) {s s' : State} {as : List Action}
    (hflag : s.flag = true) (hrun : (program T).Run s as s') :
    as.countP (· ≠ .sigint) ≤ 11 ∧
      s'.logged1.length ≤ s.logged1.length + 1 ∧
      s'.logged2.length ≤ s.logged2.length + 1 ∧
      ((∀ a, (program T).guard s' a → a = .sigint) → s'.Exited) := by
  have hsteps : as.countP (· ≠ .sigint) + left s' ≤ left s := by
    refine Program.Run.countP_add_le (I := fun s => s.flag = true) ?_ hrun hflag
    intro s a hs hg
    refine ⟨flag_act hs, ?_⟩
    change left (act T a s) + _ ≤ left s
    by_cases ha : a = .sigint
    · subst ha
      exact le_rfl
    · simpa [ha, Nat.succ_le_iff] using left_act (T := T) hs hg ha
  have hlogs : s'.logged1.length + toLog1 s'.pc1 ≤ s.logged1.length + toLog1 s.pc1 ∧
      s'.logged2.length + toLog2 s'.pc2 ≤ s.logged2.length + toLog2 s.pc2 := by
    clear hsteps
    induction hrun with
    | nil => exact ⟨le_rfl, le_rfl⟩
    | @cons s s' a as hg _ ih =>
      obtain ⟨h1, h2⟩ := toLog_act (T := T) hflag hg
      obtain ⟨ih1, ih2⟩ := ih (flag_act hflag)
      exact ⟨ih1.trans h1, ih2.trans h2⟩
  have hleft : left s ≤ 11 := by
    have h1 : left1 s.pc1 ≤ 6 := by cases s.pc1 <;> decide
    have h2 : left2 s.pc2 ≤ 5 := by cases s.pc2 <;> decide
    exact Nat.add_le_add h1 h2
  have hlog1 : toLog1 s.pc1 ≤ 1 := by cases s.pc1 <;> decide
  have hlog2 : toLog2 s.pc2 ≤ 1 := by cases s.pc2 <;> decide
  exact ⟨by omega, by omega, by omega, exited_of_stuck⟩

/-- `SIGINT` comes just before the first record is published. -/
def interrupted : State :=
  { start default default with flag := true, pc1 := .publish }

theorem exits_after_sigint_published :
    ∃ s', (program ⟨10, fun _ => default, fun _ => default⟩).exec
        [.publish1, .poll1, .start2, .pollFlag1, .head2] interrupted = some s' ∧
      s'.logged1.length ≤ 1 ∧ s'.logged2.length ≤ 1 ∧ s'.Exited := by
  refine ⟨_, rfl, ?_⟩
  have h := exits_after_sigint ⟨10, fun _ => default, fun _ => default⟩ (s := interrupted) rfl
    (Program.run_of_exec _ [.publish1, .poll1, .start2, .pollFlag1, .head2] _ rfl)
  refine ⟨h.2.1, h.2.2.1, h.2.2.2 fun a hg => ?_⟩
  cases a <;> first | rfl | cases hg

end Apes.SharedMemory
