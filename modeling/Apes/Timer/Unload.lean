import Apes.Timer.Timer

/-!
# Unloading the timer module

`timer_callback` sets its own timer again, and `del_timer` does not wait for it. The module
is gone for good exactly when no callback is running at `del_timer`.
-/

namespace Apes.Timer

open Apes

variable {p : Params} {s : State p.w} {a : Action}

/-- The timer is not pending and no callback is running. -/
def Quiescent {w : ℕ} (s : State w) : Prop := s.pending = false ∧ s.callback = .idle

/-- After `del_timer`. -/
def Deleted {w : ℕ} (s : State w) : Prop := s.stage = .leaving ∨ s.stage = .unloaded

/-- `del_timer` runs only while no callback does. -/
def DelIdle {w : ℕ} (s : State w) (a : Action) : Prop := a = .delTimer → s.callback = .idle

/-- The steps that are left after `del_timer`. -/
inductive AfterDeletion : Action → Prop
  | tick : AfterDeletion .tick
  | expire : AfterDeletion .expire
  | count : AfterDeletion .count
  | printName : AfterDeletion .printName
  | printCount : AfterDeletion .printCount
  | modTimer : AfterDeletion .modTimer
  | callbackReturns : AfterDeletion .callbackReturns
  | timerEndReturns : AfterDeletion .timerEndReturns

theorem Deleted.step (hd : Deleted s) (hg : guard s a) : AfterDeletion a := by
  cases a with
  | printEntered | initTimer | customTimerInit | printInitialised | addTimer | rmmod
  | printExited | delTimer =>
    simp only [guard] at hg
    simp [Deleted, hg] at hd
  | _ => constructor

theorem Deleted.act (hd : Deleted s) (hg : guard s a) : Deleted (act p a s) := by
  cases hd.step hg with
  | timerEndReturns => exact Or.inr rfl
  | _ => exact hd

/-- Once the timer is deleted and no callback runs, none will. -/
theorem Quiescent.act (hq : Quiescent s) (hd : Deleted s) (hg : guard s a) :
    Quiescent (act p a s) := by
  cases hd.step hg with
  | expire => exact absurd hg.1 (by simp [hq.1])
  | count | printName | printCount | modTimer | callbackReturns =>
    simp only [guard] at hg
    simp [Quiescent, hg] at hq
  | _ => exact hq

/-- What holds once the timer is deleted holds in every later state. -/
theorem run_of_deleted {I : State p.w → Prop}
    (hstep : ∀ s a, I s → Deleted s → guard s a → I (act p a s)) {s' : State p.w}
    {as : List Action} (hr : (program p).Run s as s') (hi : I s) (hd : Deleted s) : I s' := by
  induction hr with
  | nil => exact hi
  | cons hg _ ih => exact ih (hstep _ _ hi hd hg) (hd.act hg)

theorem quiescent_of_deleted (hs : ((program p).restrict DelIdle).Reachable s)
    (hd : Deleted s) : Quiescent s := by
  suffices h : Deleted s → Quiescent s from h hd
  refine hs.invariant (I := fun s => Deleted s → Quiescent s) ?_ ?_
  · rintro s ⟨jiffies, rfl⟩ (h | h) <;> cases h
  · rintro s a - ih ⟨hg, hidle⟩ hd'
    by_cases ha : a = .delTimer
    · subst ha
      exact ⟨rfl, hidle rfl⟩
    · have hd : Deleted s := by
        cases a with
        | delTimer => exact absurd rfl ha
        | timerEndReturns => exact Or.inl hg
        | printEntered | initTimer | customTimerInit | printInitialised | addTimer | rmmod
        | printExited =>
          rcases hd' with h | h <;> cases h
        | _ => exact hd'
      exact (ih hd).act hd hg

/-! ## A callback that `del_timer` meets -/

/-- The timer is pending, or a callback is running that will set it again. -/
def Alive {w : ℕ} (s : State w) : Prop :=
  s.pending = true ∨ s.callback ≠ .idle ∧ s.callback ≠ .leaving

theorem Alive.act (hl : Alive s) (hd : Deleted s) (hg : guard s a) : Alive (act p a s) := by
  cases hd.step hg with
  | expire => exact Or.inr (by simp [Timer.act])
  | count | printName | printCount => exact Or.inr (by simp [Timer.act, timerCallback])
  | modTimer => exact Or.inl rfl
  | callbackReturns =>
    have hpc : s.callback = .leaving := hg
    exact Or.inl (hl.resolve_right fun h => h.2 hpc)
  | _ => exact hl

/-- A callback that has not set the timer again when `del_timer` runs keeps it alive for
    ever. -/
theorem alive_of_callback (hc : s.callback ≠ .idle) (hc' : s.callback ≠ .leaving)
    {s' : State p.w} {as : List Action} (hr : (program p).Run (act p .delTimer s) as s') :
    Alive s' :=
  run_of_deleted (fun _ _ hl hd hg => hl.act hd hg) hr (Or.inr ⟨hc, hc'⟩) (Or.inl rfl)

/-- Unloading is safe in all runs in which `del_timer` meets no callback; where it meets
    one, `timer_end` can return before the callback does. -/
theorem unload_safe (p : Params) :
    (∀ s, ((program p).restrict DelIdle).Reachable s → s.stage = .unloaded →
      ∀ as s', (program p).Run s as s' → Quiescent s') ∧
    ∀ s a, (program p).Reachable s → guard s a → ¬ DelIdle s a →
      (program p).CanReach (fun s' => s'.stage = .unloaded ∧ ¬ Quiescent s') (act p a s) := by
  constructor
  · intro s hs hstage as s' hr
    have hd : Deleted s := Or.inr hstage
    exact run_of_deleted (fun _ _ hq hd hg => hq.act hd hg) hr (quiescent_of_deleted hs hd) hd
  · intro s a _ _ hidle
    simp only [DelIdle, Classical.not_imp] at hidle
    obtain ⟨rfl, hc⟩ := hidle
    exact .step .timerEndReturns rfl (.of_now ⟨rfl, fun hq => hc hq.2⟩)

/-- `rmmod` while the first callback runs: the callback sets the timer again after
    `timer_end` has returned. -/
theorem unload_unsafe_in_callback :
    ¬ ∀ s, (program ⟨32, 250, 0, "Vikrant"⟩).Reachable s → s.stage = .unloaded → Quiescent s := by
  intro hall
  let schedule : List Action :=
    [.printEntered, .initTimer, .customTimerInit, .printInitialised, .addTimer, .expire, .rmmod,
      .printExited, .delTimer, .timerEndReturns, .count, .printName, .printCount, .modTimer]
  have hinit : (program ⟨32, 250, 0, "Vikrant"⟩).Reachable (start 0) := .init ⟨0, rfl⟩
  have hreach := hinit.run (Program.run_of_exec _ schedule _ rfl)
  exact absurd (hall _ hreach rfl).1 (by decide)

end Apes.Timer
