import Apes.Lib.Program

/-!
# `timer_lkm.c`

A kernel module whose timer prints the name of its user periodically. The kernel runs
`timer_start` when the module is loaded, `timer_end` when it is unloaded, and
`timer_callback` on some CPU whenever the timer expires: it detaches the timer first and
runs no two callbacks of one timer at a time. Every statement is one step.
-/

namespace Apes.Timer

open Apes

/-- What the module is built and loaded with. -/
structure Params where
  -- the width of `unsigned long`
  w : ℕ
  hz : BitVec 32
  timePeriod : BitVec 32
  myName : String

/-- `HZ*(time_period)`, an `int` that is added to an `unsigned long` -/
def Params.period (p : Params) : BitVec p.w := (p.hz * p.timePeriod).signExtend p.w

inductive Message
  | entered
  | initialised
  | name (myName : String)
  | called (timerCount : BitVec 32)
  | exited
  deriving DecidableEq

/-- Where the module is between `insmod` and `rmmod`. -/
inductive Stage
  -- `timer_start`
  | entry
  | initTimer
  | customInit
  | printInitialised
  | addTimer
  | loaded
  -- `timer_end`
  | exit
  | delTimer
  | leaving
  /-- `timer_end` has returned. -/
  | unloaded
  deriving DecidableEq, Repr

/-- Where `timer_callback` is. -/
inductive CallbackPc
  | idle
  | count
  | printName
  | printCount
  | modTimer
  /-- The timer is set again, the callback has not returned yet. -/
  | leaving
  deriving DecidableEq, Repr

structure State (w : ℕ) where
  jiffies : BitVec w
  -- `my_timer_t`
  expires : BitVec w
  pending : Bool
  -- the static variable of `timer_callback`
  timerCount : BitVec 32
  log : List Message
  stage : Stage
  callback : CallbackPc

inductive Action
  /-- A tick of the clock. -/
  | tick
  | printEntered
  | initTimer
  | customTimerInit
  | printInitialised
  | addTimer
  /-- The kernel detaches the timer and calls `timer_callback`. -/
  | expire
  | count
  | printName
  | printCount
  | modTimer
  | callbackReturns
  /-- The kernel calls `timer_end`. -/
  | rmmod
  | printExited
  | delTimer
  | timerEndReturns
  deriving DecidableEq, Repr

variable {w : ℕ}

/-- `time_after_eq(jiffies, expires)` -/
def State.Due (s : State w) : Prop := 0 ≤ (s.jiffies - s.expires).toInt

instance (s : State w) : Decidable s.Due := inferInstanceAs (Decidable (_ ≤ _))

def guard (s : State w) : Action → Prop
  | .tick => True
  | .printEntered => s.stage = .entry
  | .initTimer => s.stage = .initTimer
  | .customTimerInit => s.stage = .customInit
  | .printInitialised => s.stage = .printInitialised
  | .addTimer => s.stage = .addTimer
  | .expire => s.pending = true ∧ s.Due ∧ s.callback = .idle
  | .count => s.callback = .count
  | .printName => s.callback = .printName
  | .printCount => s.callback = .printCount
  | .modTimer => s.callback = .modTimer
  | .callbackReturns => s.callback = .leaving
  | .rmmod => s.stage = .loaded
  | .printExited => s.stage = .exit
  | .delTimer => s.stage = .delTimer
  | .timerEndReturns => s.stage = .leaving

instance (s : State w) : DecidablePred (guard s) := fun a => by
  cases a <;> (dsimp only [guard]; infer_instance)

/-- The steps of `timer_callback`. -/
def timerCallback (p : Params) (s : State p.w) : Action → State p.w
  | .count => { s with callback := .printName, timerCount := s.timerCount + 1 }
  | .printName => { s with callback := .printCount, log := s.log ++ [.name p.myName] }
  | .printCount => { s with callback := .modTimer, log := s.log ++ [.called s.timerCount] }
  | .modTimer =>
    { s with callback := .leaving, expires := s.jiffies + p.period, pending := true }
  | .callbackReturns => { s with callback := .idle }
  | _ => s

/-- The steps of `timer_start`. -/
def timerStart (p : Params) (s : State p.w) : Action → State p.w
  | .printEntered => { s with stage := .initTimer, log := s.log ++ [.entered] }
  | .initTimer => { s with stage := .customInit, pending := false }
  | .customTimerInit => { s with stage := .printInitialised, expires := s.jiffies + p.period }
  | .printInitialised => { s with stage := .addTimer, log := s.log ++ [.initialised] }
  | .addTimer => { s with stage := .loaded, pending := true }
  | _ => s

/-- The steps of `timer_end`. `del_timer` does not wait for a callback that is running. -/
def timerEnd (s : State w) : Action → State w
  | .printExited => { s with stage := .delTimer, log := s.log ++ [.exited] }
  | .delTimer => { s with stage := .leaving, pending := false }
  | .timerEndReturns => { s with stage := .unloaded }
  | _ => s

def act (p : Params) (a : Action) (s : State p.w) : State p.w :=
  match a with
  | .tick => { s with jiffies := s.jiffies + 1 }
  | .expire => { s with pending := false, callback := .count }
  | .rmmod => { s with stage := .exit }
  | .printEntered | .initTimer | .customTimerInit | .printInitialised | .addTimer =>
    timerStart p s a
  | .count | .printName | .printCount | .modTimer | .callbackReturns => timerCallback p s a
  | .printExited | .delTimer | .timerEndReturns => timerEnd s a

/-- The state in which the kernel calls `timer_start`; `my_timer_t` is a zeroed global. -/
def start (jiffies : BitVec w) : State w := ⟨jiffies, 0, false, 0, [], .entry, .idle⟩

/-- The module loaded with `p`. -/
def program (p : Params) : Program (State p.w) Action where
  init s := ∃ jiffies, s = start jiffies
  guard := guard
  act := act p

instance (p : Params) (s : State p.w) (a : Action) : Decidable ((program p).guard s a) :=
  inferInstanceAs (Decidable (guard s a))

end Apes.Timer
