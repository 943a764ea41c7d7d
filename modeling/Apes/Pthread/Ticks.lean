import Apes.Pthread.Children

/-!
# The ticks of the timer

`timer_handler` sets `flag`, and `child2_thread_callback` clears it after a sample. A tick
that is delivered while the sample is being taken sets the variable in vain.
-/

namespace Apes.Pthread

open Apes

variable {t : CharType} {text : List UInt8}

/-- The number of ticks since the last sample has been started with
    `fopen("/proc/stat","r")`. -/
def countTicks : Action → State → ℕ → ℕ
  | .tick, _, n => n + 1
  | .open2Stat, _, _ => 0
  | _, _, n => n

/-- The threads, and the number of ticks since the start of the last sample. -/
def ticking (t : CharType) (text : List UInt8) : Program (State × ℕ) Action :=
  (program t text).instrument 0 countTicks

instance (t : CharType) (text : List UInt8) (s : State × ℕ) (a : Action) :
    Decidable ((ticking t text).guard s a) :=
  inferInstanceAs (Decidable (guard t s.1 a))

/-- At the head of the loop a sample is due after a tick. -/
def SampleDue (s : State × ℕ) : Prop := s.1.child2.pc = .head → 0 < s.2 → s.1.flag = true

instance : DecidablePred SampleDue := fun _ => inferInstanceAs (Decidable (_ → _ → _))

/-- No tick has been delivered between the start of a sample and the `flag =0` behind it. -/
def NoTickInSample (s : State × ℕ) (a : Action) : Prop := a = .clear2 → s.2 = 0

/-- A tick since the start of the last sample shows in `flag`. -/
def TicksShow (s : State × ℕ) : Prop := 0 < s.2 → s.1.flag = true

/-- A tick is not forgotten before the next sample, unless it comes within one. -/
theorem TicksShow.act {s : State × ℕ} {a : Action} (h : TicksShow s) (hnone : NoTickInSample s a) :
    TicksShow ((ticking t text).act a s) := by
  intro hpos
  cases a with
  | tick => rfl
  | open2Stat => exact absurd hpos (Nat.lt_irrefl 0)
  | clear2 =>
    have hzero : s.2 = 0 := hnone rfl
    exact absurd hzero (Nat.pos_iff_ne_zero.mp hpos)
  | _ => exact h hpos

/-- In every state of a run in which `child2_thread_callback` is at the head of its loop, a
    tick that was delivered after the start of the last sample has left `flag` set, if and
    only if no tick of the run was delivered between the start of a sample and the `flag =0`
    behind it. -/
theorem sampleDue_iff (t : CharType) (text : List UInt8) {s s' : State × ℕ} {as : List Action}
    (hs : (ticking t text).init s) (h : (ticking t text).Run s as s') :
    (ticking t text).Throughout SampleDue as s ↔ (ticking t text).Meets NoTickInSample as s := by
  have hstart : TicksShow s := by
    intro hpos
    exact absurd hs.2 (Nat.pos_iff_ne_zero.mp hpos)
  have hdue : ∀ s, TicksShow s → SampleDue s := fun _ hshow _ => hshow
  -- a tick within the sample is lost with the `flag =0`
  have hlost : ∀ s a, ¬ NoTickInSample s a → ¬ SampleDue ((ticking t text).act a s) := by
    intro s a hlost hdue
    obtain ⟨rfl, hpos⟩ := Classical.not_imp.mp hlost
    have hflag := hdue rfl (Nat.pos_of_ne_zero hpos)
    cases hflag
  exact h.throughout_iff hdue (fun _ _ hshow _ hnone => hshow.act hnone)
    (fun s a _ _ => hlost s a) hstart

/-- A first line of `/proc/stat`. -/
def shortStat : List UInt8 := textBytes "cpu  1 2 3 4 5 6 7 8 9\n"

/-- Its counters. -/
def shortCpu : Cpu := #v[1, 2, 3, 4, 5, 6, 7, 8, 9]

/-- A sample during which a tick is delivered. -/
def tickInSample : List Action :=
  [.open2, .tick, .head2, .check2, .open2Stat, .tick, .fgets2 shortStat,
    .parse2 shortCpu, .usage2, .clear2]

theorem run_tickInSample :
    ∃ s', (ticking .signed []).Run (start (Vector.replicate 9 0), 0) tickInSample s' ∧
      ¬ SampleDue s' :=
  Program.exists_run_of_exec _ _ _ _ (by decide +kernel)

theorem sampleDue_iff_tickInSample :
    (ticking .signed []).Throughout SampleDue tickInSample (start (Vector.replicate 9 0), 0) ↔
      (ticking .signed []).Meets NoTickInSample tickInSample
        (start (Vector.replicate 9 0), 0) := by
  obtain ⟨s', hrun, -⟩ := run_tickInSample
  exact sampleDue_iff .signed [] ⟨⟨_, rfl⟩, rfl⟩ hrun

/-- The second of the two ticks comes between `fopen` and `fgets`, and is not seen. -/
theorem sampleDue_fails_tickInSample :
    ∃ s, (ticking .signed []).Reachable s ∧ .usr2 ∉ tickInSample ∧ ¬ SampleDue s := by
  obtain ⟨s', hrun, hlost⟩ := run_tickInSample
  have hinit : (ticking .signed []).Reachable (start (Vector.replicate 9 0), 0) :=
    .init ⟨⟨_, rfl⟩, rfl⟩
  exact ⟨s', hinit.run hrun, by decide, hlost⟩

end Apes.Pthread
