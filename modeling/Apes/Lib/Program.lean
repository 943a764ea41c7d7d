import Mathlib.Algebra.Order.Group.Nat

/-!
# Guarded-command programs

A program is a set of initial states together with actions, each with a guard
and an effect. Several threads that share one state are one program whose
actions are the atomic steps of all of them, so that a run is one interleaving.

## Main definitions

- `Program.Run`: a run, with the list of the actions it takes
- `Program.Reachable`: the states of the runs from the initial states
- `Program.CanReach`: the states from which a run leads to a given set of states
- `Program.restrict`: the runs whose steps all meet a condition
- `Program.Meets`: the same condition, read along one list of actions
- `Program.Throughout`: what holds in every state along one list of actions
- `Program.instrument`: the program with a record of what it has done
- `Refinement`: a forward simulation in which some actions stutter
-/

namespace Apes

/-- A guarded-command program over the states `σ` with the actions `α`. -/
structure Program (σ α : Type*) where
  /-- The states in which a run may start. -/
  init : σ → Prop
  /-- The states in which an action can be taken. -/
  guard : σ → α → Prop
  /-- The effect of an action whose guard holds. -/
  act : α → σ → σ

namespace Program

variable {σ α : Type*}

/-- `P.Run s as s'`: from `s` the actions `as` can be taken in this order, and
    they lead to `s'`. -/
inductive Run (P : Program σ α) : σ → List α → σ → Prop
  | nil (s : σ) : Run P s [] s
  | cons {s s' : σ} {a : α} {as : List α} (hg : P.guard s a)
      (h : Run P (P.act a s) as s') : Run P s (a :: as) s'

/-- The states that the runs from the initial states lead to. -/
inductive Reachable (P : Program σ α) : σ → Prop
  | init {s : σ} (h : P.init s) : Reachable P s
  | step {s : σ} (h : Reachable P s) (a : α) (hg : P.guard s a) : Reachable P (P.act a s)

/-- The program that takes an action only where `ok` allows it. -/
def restrict (P : Program σ α) (ok : σ → α → Prop) : Program σ α where
  init := P.init
  guard s a := P.guard s a ∧ ok s a
  act := P.act

/-- Every action of the list is taken in a state where `ok` allows it. -/
def Meets (P : Program σ α) (ok : σ → α → Prop) : List α → σ → Prop
  | [], _ => True
  | a :: as, s => ok s a ∧ P.Meets ok as (P.act a s)

/-- `Q` holds in every state along the actions. -/
def Throughout (P : Program σ α) (Q : σ → Prop) : List α → σ → Prop
  | [], s => Q s
  | a :: as, s => Q s ∧ P.Throughout Q as (P.act a s)

/-- The program together with a record that is kept of its actions; the program does not
    see the record. -/
def instrument {γ : Type*} (P : Program σ α) (start : γ) (note : α → σ → γ → γ) :
    Program (σ × γ) α where
  init t := P.init t.1 ∧ t.2 = start
  guard t a := P.guard t.1 a
  act a t := (P.act a t.1, note a t.1 t.2)

/-- No action can be taken. -/
def Stuck (P : Program σ α) (s : σ) : Prop := ∀ a, ¬ P.guard s a

/-- Some run from `s` ends in a state of `Q`. -/
def CanReach (P : Program σ α) (Q : σ → Prop) (s : σ) : Prop := ∃ as s', P.Run s as s' ∧ Q s'

/-- Take the actions of the list one after the other, as long as their guards hold. -/
def exec (P : Program σ α) [∀ s a, Decidable (P.guard s a)] : List α → σ → Option σ
  | [], s => some s
  | a :: as, s => if P.guard s a then P.exec as (P.act a s) else none

theorem run_of_exec (P : Program σ α) [∀ s a, Decidable (P.guard s a)] (as : List α) (s : σ)
    {s' : σ} (h : P.exec as s = some s') : P.Run s as s' := by
  induction as generalizing s with
  | nil =>
    obtain rfl : s = s' := Option.some.inj h
    exact .nil s
  | cons a as ih =>
    simp only [exec] at h
    split at h
    · next hg => exact .cons hg (ih _ h)
    · cases h

/-- A run whose last state is found to have a property by evaluating it. -/
theorem exists_run_of_exec (P : Program σ α) [∀ s a, Decidable (P.guard s a)] (p : σ → Prop)
    [DecidablePred p] (as : List α) (s : σ) (h : (P.exec as s).any fun s' => p s') :
    ∃ s', P.Run s as s' ∧ p s' := by
  obtain ⟨s', hs', hp⟩ := Option.any_eq_true _ _ |>.mp h
  exact ⟨s', run_of_exec P as s hs', of_decide_eq_true hp⟩

variable {P : Program σ α}

/-- The states along a run from a reachable state are reachable. -/
theorem Reachable.run {s s' : σ} {as : List α} (hs : P.Reachable s) (h : P.Run s as s') :
    P.Reachable s' := by
  induction h with
  | nil => exact hs
  | cons hg _ ih => exact ih (hs.step _ hg)

/-- One run after the other. -/
theorem Run.append {s s' s'' : σ} {as bs : List α} (h : P.Run s as s') (h' : P.Run s' bs s'') :
    P.Run s (as ++ bs) s'' := by
  induction h with
  | nil => exact h'
  | cons hg _ ih => exact .cons hg (ih h')

/-- A loop whose states are known is a run. -/
theorem run_range (f : ℕ → σ) (g : ℕ → α) (n : ℕ)
    (h : ∀ k < n, P.guard (f k) (g k) ∧ P.act (g k) (f k) = f (k + 1)) :
    P.Run (f 0) ((List.range n).map g) (f n) := by
  induction n with
  | zero => exact .nil _
  | succ n ih =>
    obtain ⟨hg, hact⟩ := h n (Nat.lt_succ_self n)
    rw [List.range_succ, List.map_append]
    exact (ih fun k hk => h k (hk.trans (Nat.lt_succ_self n))).append (.cons hg (hact ▸ .nil _))

/-- What holds initially and is kept by every step from a reachable state holds
    in every reachable state. -/
theorem Reachable.invariant {I : σ → Prop} (h0 : ∀ s, P.init s → I s)
    (hstep : ∀ s a, P.Reachable s → I s → P.guard s a → I (P.act a s)) {s : σ}
    (h : P.Reachable s) : I s := by
  induction h with
  | init h => exact h0 _ h
  | step hr a hg ih => exact hstep _ a hr ih hg

/-- What each step keeps of the actions taken so far and of the state, a run keeps. -/
theorem Run.history {I : List α → σ → Prop}
    (hstep : ∀ bs s a, I bs s → P.guard s a → I (bs ++ [a]) (P.act a s)) {s s' : σ}
    {as bs : List α} (h : P.Run s as s') (hs : I bs s) : I (bs ++ as) s' := by
  induction h generalizing bs with
  | nil => rwa [List.append_nil]
  | @cons s s' a as hg _ ih =>
    have hnext := ih (hstep bs s a hs hg)
    rwa [List.append_assoc] at hnext

theorem CanReach.of_now {Q : σ → Prop} {s : σ} (h : Q s) : P.CanReach Q s := ⟨[], s, .nil s, h⟩

theorem CanReach.step {Q : σ → Prop} {s : σ} (a : α) (hg : P.guard s a)
    (h : P.CanReach Q (P.act a s)) : P.CanReach Q s := by
  obtain ⟨as, s', hrun, hs'⟩ := h
  exact ⟨a :: as, s', .cons hg hrun, hs'⟩

/-- Along a run a number that one action raises by one, and no other action changes,
    counts that action. -/
theorem Run.count_eq [DecidableEq α] {f : σ → ℕ} {b : α}
    (hf : ∀ s a, P.Reachable s → P.guard s a → f (P.act a s) = if a = b then f s + 1 else f s)
    {s s' : σ} {as : List α} (hs : P.Reachable s) (h : P.Run s as s') :
    f s' = f s + as.count b := by
  induction h with
  | nil => simp
  | @cons s s' a as hg _ ih =>
    rw [ih (hs.step a hg), hf s a hs hg]
    by_cases hab : a = b
    · rw [if_pos hab, hab, List.count_cons_self]
      omega
    · rw [if_neg hab, List.count_cons_of_ne hab]

theorem Throughout.head {Q : σ → Prop} {as : List α} {s : σ} (h : P.Throughout Q as s) : Q s := by
  cases as with
  | nil => exact h
  | cons a as => exact h.1

theorem Throughout.last {Q : σ → Prop} {s s' : σ} {as : List α} (hQ : P.Throughout Q as s)
    (h : P.Run s as s') : Q s' := by
  induction h with
  | nil => exact hQ
  | cons _ _ ih => exact ih hQ.2

/-- What every step keeps holds in every state along a run. -/
theorem Run.throughout {I Q : σ → Prop} (hQ : ∀ s, I s → Q s)
    (hstep : ∀ s a, I s → P.guard s a → I (P.act a s)) {s s' : σ} {as : List α}
    (h : P.Run s as s') (hs : I s) : P.Throughout Q as s := by
  induction h with
  | nil s => exact hQ s hs
  | @cons s s' a as hg _ ih => exact ⟨hQ s hs, ih (hstep s a hs hg)⟩

/-- `I` is kept by the steps that `ok` allows, and `Q` is lost by all others: then `Q` holds
    along a run exactly where all its steps are allowed. -/
theorem Run.throughout_iff {I Q : σ → Prop} {ok : σ → α → Prop} (hQ : ∀ s, I s → Q s)
    (hgood : ∀ s a, I s → P.guard s a → ok s a → I (P.act a s))
    (hbad : ∀ s a, I s → P.guard s a → ¬ ok s a → ¬ Q (P.act a s)) {s s' : σ} {as : List α}
    (h : P.Run s as s') (hs : I s) : P.Throughout Q as s ↔ P.Meets ok as s := by
  induction h with
  | nil s => exact iff_of_true (hQ s hs) trivial
  | @cons s s' a as hg _ ih =>
    by_cases hok : ok s a
    · exact and_congr (iff_of_true (hQ s hs) hok) (ih (hgood s a hs hg hok))
    · refine iff_of_false ?_ fun hm => hok hm.1
      exact fun ht => hbad s a hs hg hok ht.2.head

section Restrict

variable {ok : σ → α → Prop}

/-- A run of the restricted program is a run whose steps all meet the condition. -/
theorem run_restrict_iff {s s' : σ} {as : List α} :
    (P.restrict ok).Run s as s' ↔ P.Run s as s' ∧ P.Meets ok as s := by
  constructor
  · intro h
    induction h with
    | nil s => exact ⟨.nil s, trivial⟩
    | cons hg _ ih => exact ⟨.cons hg.1 ih.1, hg.2, ih.2⟩
  · rintro ⟨h, hm⟩
    induction h with
    | nil s => exact .nil s
    | @cons s s' a as hg _ ih => exact .cons (P := P.restrict ok) ⟨hg, hm.1⟩ (ih hm.2)

theorem Reachable.of_restrict {s : σ} (h : (P.restrict ok).Reachable s) : P.Reachable s := by
  induction h with
  | init h => exact .init h
  | step _ a hg ih => exact ih.step a hg.1

end Restrict

section Rank

variable {V : σ → ℕ}

/-- A run along which a rank falls at every step is no longer than the rank of
    its first state. -/
theorem Run.length_add_le (hV : ∀ s a, P.Reachable s → P.guard s a → V (P.act a s) < V s)
    {s s' : σ} {as : List α} (hs : P.Reachable s) (h : P.Run s as s') :
    as.length + V s' ≤ V s := by
  induction h with
  | nil => simp
  | @cons s s' a as hg _ ih =>
    have hlt := hV s a hs hg
    have := ih (hs.step a hg)
    simp only [List.length_cons]
    omega

/-- A rank that never rises along a run, and falls at each step of a kind, bounds the number
    of the steps of that kind. -/
theorem Run.countP_add_le {I : σ → Prop} {work : α → Bool}
    (hstep : ∀ s a, I s → P.guard s a →
      I (P.act a s) ∧ V (P.act a s) + (if work a then 1 else 0) ≤ V s)
    {s s' : σ} {as : List α} (h : P.Run s as s') (hs : I s) : as.countP work + V s' ≤ V s := by
  induction h with
  | nil => simp
  | @cons s s' a as hg _ ih =>
    obtain ⟨hi, hle⟩ := hstep s a hs hg
    have := ih hi
    rw [List.countP_cons]
    omega

/-- Where a rank falls at every step taken by a scheduler that only stops at
    `Q`, the scheduler reaches `Q`. -/
theorem exists_run_of_rank {I Q : σ → Prop}
    (h : ∀ s, I s → Q s ∨ ∃ a, P.guard s a ∧ I (P.act a s) ∧ V (P.act a s) < V s) {s : σ}
    (hs : I s) : ∃ as s', P.Run s as s' ∧ I s' ∧ Q s' := by
  induction hn : V s using Nat.strong_induction_on generalizing s with
  | _ n ih =>
    rcases h s hs with hq | ⟨a, hg, hi, hlt⟩
    · exact ⟨[], s, .nil s, hs, hq⟩
    · obtain ⟨as, s', hr, hs', hq⟩ := ih _ (hn ▸ hlt) hi rfl
      exact ⟨a :: as, s', .cons hg hr, hs', hq⟩

end Rank

end Program

/-- A forward simulation of the concrete program `C` by the abstract program
    `A`: a concrete action that `label` maps to an abstract one takes that step,
    every other concrete action leaves the abstract state as it is. -/
structure Refinement {σ α τ β : Type*} (C : Program σ α) (A : Program τ β)
    (label : α → Option β) (R : σ → τ → Prop) : Prop where
  init : ∀ s, C.init s → ∃ t, A.init t ∧ R s t
  stutter : ∀ s a t, C.guard s a → label a = none → R s t → R (C.act a s) t
  step : ∀ s a t b, C.guard s a → label a = some b → R s t →
    A.guard t b ∧ R (C.act a s) (A.act b t)

namespace Refinement

variable {σ α τ β : Type*} {C : Program σ α} {A : Program τ β} {label : α → Option β}
  {R : σ → τ → Prop}

/-- Every concrete run is matched by an abstract run over the visible actions. -/
theorem run (h : Refinement C A label R) {s s' : σ} {as : List α} (hr : C.Run s as s') :
    ∀ t, R s t → ∃ t', A.Run t (as.filterMap label) t' ∧ R s' t' := by
  induction hr with
  | nil => exact fun t hR => ⟨t, .nil t, hR⟩
  | @cons s s' a as hg _ ih =>
    intro t hR
    cases hl : label a with
    | none =>
      obtain ⟨t', hrun, hR'⟩ := ih t (h.stutter s a t hg hl hR)
      exact ⟨t', by rwa [List.filterMap_cons_none hl], hR'⟩
    | some b =>
      obtain ⟨hb, hRb⟩ := h.step s a t b hg hl hR
      obtain ⟨t', hrun, hR'⟩ := ih _ hRb
      exact ⟨t', by rw [List.filterMap_cons_some hl]; exact .cons hb hrun, hR'⟩

/-- Every reachable concrete state is related to a reachable abstract state. -/
theorem reachable (h : Refinement C A label R) {s : σ} (hs : C.Reachable s) :
    ∃ t, A.Reachable t ∧ R s t := by
  induction hs with
  | init hi =>
    obtain ⟨t, ht, hR⟩ := h.init _ hi
    exact ⟨t, .init ht, hR⟩
  | @step s _ a hg ih =>
    obtain ⟨t, ht, hR⟩ := ih
    cases hl : label a with
    | none => exact ⟨t, ht, h.stutter s a t hg hl hR⟩
    | some b =>
      obtain ⟨hb, hRb⟩ := h.step s a t b hg hl hR
      exact ⟨_, ht.step b hb, hRb⟩

end Refinement

end Apes
