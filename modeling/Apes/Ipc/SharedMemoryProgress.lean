import Apes.Ipc.SharedMemory

/-!
# Where `thread1_handler` waits forever

Every wait of `thread1_handler` uses up one setting of `send`, and
`thread2_handler` sets it once per round. A setting that overwrites one that has not
been used up is lost; after it `thread1_handler` can only wait in vain for its last
acknowledgement.
-/

namespace Apes.SharedMemory

open Apes

variable {T : Tables} {s : State} {a : Action}

/-- `thread2_handler` is done, and `thread1_handler` still waits for `send`. -/
def Stranded (T : Tables) (s : State) : Prop :=
  s.pc2 = .done ∧ (s.pc1 = .poll ∨ s.pc1 = .pollFlag) ∧ s.send = false ∧ s.i1 < T.n

instance (T : Tables) (s : State) : Decidable (Stranded T s) :=
  inferInstanceAs (Decidable (_ ∧ _))

/-- `thread2_handler` sets `send` only where it is cleared. -/
def SetsCleared (s : State) (a : Action) : Prop := a = .set2 → s.send = false

instance (s : State) (a : Action) : Decidable (SetsCleared s a) :=
  inferInstanceAs (Decidable (_ → _))

/-- How many settings of `send` have been used up or can still be. -/
def State.useful (s : State) : ℕ := s.taken + s.send.toNat

/-- Without a signal `send` stays set until `thread1_handler` clears it. -/
def Held (s : State) : Prop := s.pc1 = .logAck ∨ s.pc1 = .clear → s.send = true

theorem held_of_reachable (hs : (quiet T).Reachable s) : Held s := by
  refine hs.invariant ?_ fun s a _ hh hg => ?_
  · rintro s ⟨ptr, ptr1, rfl⟩
    simp [Held, start]
  · obtain ⟨hg, -⟩ : guard s a ∧ a ≠ .sigint := hg
    show Held (act T a s)
    unfold Held at hh ⊢
    cases a with
    | head1 =>
      simp only [act]
      split
      · simp
      · split <;> simp
    | poll1 => cases hs : s.send <;> simp [act, hs]
    | pollFlag1 =>
      simp only [act]
      split <;> simp
    | logAck1 =>
      have hpc : s.pc1 = .logAck := hg
      simpa [act, hpc] using hh
    | set2 => simp [act]
    | publish1 | clear1 | count1 => simp [act]
    | sigint | start2 | head2 | logCmd2 | publish2 | count2 => exact hh

/-- A setting of `send` is useful exactly when `send` is cleared; no other step
    changes the two numbers. -/
theorem Rounds.sets_act (hr : Rounds T s) (hh : Held s) (hg : guard s a) (hq : a ≠ .sigint) :
    (act T a s).sets = (if a = .set2 then s.sets + 1 else s.sets) ∧
    (act T a s).useful =
      if a = .set2 ∧ s.send = false then s.useful + 1 else s.useful := by
  obtain ⟨hflag, -, h2⟩ := hr
  cases a with
  | sigint => exact absurd rfl hq
  | head1 =>
    have hpc : s.pc1 = .head := hg
    refine ⟨rfl, ?_⟩
    by_cases hn : s.i1 = T.n <;>
      simp [act, State.useful, State.taken, hpc, hflag, hn]
  | publish1 | logAck1 | count1 =>
    simp only [guard] at hg
    exact ⟨rfl, by simp [act, State.useful, State.taken, hg]⟩
  | poll1 =>
    have hpc : s.pc1 = .poll := hg
    refine ⟨rfl, ?_⟩
    cases hs : s.send <;> simp [act, State.useful, State.taken, hpc, hs]
  | pollFlag1 =>
    have hpc : s.pc1 = .pollFlag := hg
    exact ⟨rfl, by simp [act, State.useful, State.taken, hpc, hflag]⟩
  | clear1 =>
    have hpc : s.pc1 = .clear := hg
    exact ⟨rfl, by simp [act, State.useful, State.taken, hpc, hh (Or.inr hpc)]⟩
  | head2 =>
    have hpc : s.pc2 = .head := hg
    refine ⟨?_, rfl⟩
    by_cases hn : s.i2 = T.n <;> simp [act, State.sets, hpc, hflag, hn]
  | start2 | logCmd2 | publish2 | count2 =>
    simp only [guard] at hg
    exact ⟨by simp [act, State.sets, hg], rfl⟩
  | set2 =>
    have hpc : s.pc2 = .set := hg
    simp only [Rounds2, hpc] at h2
    constructor
    · simp only [act, State.sets, hpc, if_true]
      omega
    · cases hs : s.send <;> simp [act, State.useful, State.taken, hs]

/-- What a step does to the settings: it makes none, it makes a useful one on a cleared
    `send`, or it makes a useless one on a `send` that is set. -/
theorem sets_cases (hs : (quiet T).Reachable s) (hg : (quiet T).guard s a) :
    (a ≠ .set2 ∧ (act T a s).sets = s.sets ∧ (act T a s).useful = s.useful) ∨
    (s.send = false ∧ (act T a s).sets = s.sets + 1 ∧ (act T a s).useful = s.useful + 1) ∨
    (a = .set2 ∧ s.send = true ∧ (act T a s).sets = s.sets + 1 ∧
      (act T a s).useful = s.useful) := by
  obtain ⟨h1, h2⟩ := (rounds_of_reachable hs).sets_act (held_of_reachable hs) hg.1 hg.2
  by_cases ha : a = .set2
  · rw [if_pos ha] at h1
    right
    cases hsend : s.send with
    | false => exact Or.inl ⟨rfl, h1, by rw [h2, if_pos ⟨ha, hsend⟩]⟩
    | true => exact Or.inr ⟨ha, rfl, h1, by rw [h2, if_neg (by simp [hsend])]⟩
  · rw [if_neg ha] at h1
    exact Or.inl ⟨ha, h1, by rw [h2, if_neg fun h => ha h.1]⟩

/-- Where every setting is made on a cleared `send`, none is lost. -/
theorem sets_eq_useful (hs : ((quiet T).restrict SetsCleared).Reachable s) :
    s.sets = s.useful := by
  refine hs.invariant (I := fun s => s.sets = s.useful) ?_ fun s a hs heq hg => ?_
  · rintro s ⟨ptr, ptr1, rfl⟩
    rfl
  · obtain ⟨hg, hc⟩ := hg
    show (act T a s).sets = (act T a s).useful
    rcases sets_cases hs.of_restrict hg with ⟨-, h1, h2⟩ | ⟨-, h1, h2⟩ | ⟨ha, hsend, -⟩
    · rw [h1, h2, heq]
    · rw [h1, h2, heq]
    · exact absurd (hc ha) (by simp [hsend])

/-- A handler that is stranded has been cheated of a setting. -/
theorem Stranded.useful_lt (hr : Rounds T s) (h : Stranded T s) : s.useful < s.sets := by
  obtain ⟨hpc2, hpc1, hsend, hlt⟩ := h
  have h2 := hr.rounds2
  simp only [Rounds2, hpc2] at h2
  have hsets : s.sets = s.i2 := by simp [State.sets, hpc2]
  have htaken : s.taken = s.i1 := by
    rcases hpc1 with hpc1 | hpc1 <;> simp [State.taken, hpc1]
  rw [State.useful, htaken, hsend, hsets, h2]
  exact hlt

theorem not_stranded_of_setsCleared (hs : ((quiet T).restrict SetsCleared).Reachable s) :
    ¬ Stranded T s := by
  intro h
  have hlt := h.useful_lt (rounds_of_reachable hs.of_restrict)
  exact absurd (sets_eq_useful hs) hlt.ne'

/-! ## A lost setting -/

theorem useful_lt_step (hs : (quiet T).Reachable s) (hg : (quiet T).guard s a)
    (h : s.useful < s.sets) : ((quiet T).act a s).useful < ((quiet T).act a s).sets := by
  show (act T a s).useful < (act T a s).sets
  rcases sets_cases hs hg with ⟨-, h1, h2⟩ | ⟨-, h1, h2⟩ | ⟨-, -, h1, h2⟩ <;> omega

theorem useful_le_sets (hs : (quiet T).Reachable s) : s.useful ≤ s.sets := by
  refine hs.invariant (I := fun s => s.useful ≤ s.sets) ?_ fun s a hs hle hg => ?_
  · rintro s ⟨ptr, ptr1, rfl⟩
    exact le_rfl
  · show (act T a s).useful ≤ (act T a s).sets
    rcases sets_cases hs hg with ⟨-, h1, h2⟩ | ⟨-, h1, h2⟩ | ⟨-, -, h1, h2⟩ <;> omega

/-- A run with a setting on a `send` that was still set has lost one. -/
theorem useful_lt_of_not_meets {as : List Action} {s' : State} (hs : (quiet T).Reachable s)
    (h : (quiet T).Run s as s') (hm : s.useful < s.sets ∨ ¬ (quiet T).Meets SetsCleared as s) :
    s'.useful < s'.sets := by
  induction h with
  | nil => exact hm.resolve_right fun h => h trivial
  | @cons s s' a as hg _ ih =>
    refine ih (hs.step a hg) ?_
    rcases hm with hlt | hm
    · exact Or.inl (useful_lt_step hs hg hlt)
    · by_cases hc : SetsCleared s a
      · exact Or.inr fun h => hm ⟨hc, h⟩
      · -- this is the step that overwrites
        left
        obtain ⟨ha, hsend⟩ := Classical.not_imp.mp hc
        have hle := useful_le_sets hs
        show (act T a s).useful < (act T a s).sets
        rcases sets_cases hs hg with ⟨hne, -⟩ | ⟨hsend', -⟩ | ⟨-, -, h1, h2⟩
        · exact absurd ha hne
        · exact absurd hsend' hsend
        · omega

/-! ## The end of a run with a lost setting -/

/-- How many steps `thread1_handler` has still to make, if it does not have to wait. -/
def rank1 (n : ℕ) (s : State) : ℕ :=
  match s.pc1 with
  | .head => 7 * (n - s.i1) + 1
  | .publish => 7 * (n - s.i1)
  | .pollFlag => 7 * (n - s.i1) - 1
  | .poll => 7 * (n - s.i1) - 2
  | .logAck => 7 * (n - s.i1) - 3
  | .clear => 7 * (n - s.i1) - 4
  | .count => 7 * (n - s.i1) - 5
  | .killed | .done => 0

/-- How many steps `thread2_handler` has still to make. -/
def rank2 (n : ℕ) (s : State) : ℕ :=
  match s.pc2 with
  | .unborn => 5 * (n - s.i2) + 3
  | .head => 5 * (n - s.i2) + 2
  | .logCmd => 5 * (n - s.i2) + 1
  | .publish => 5 * (n - s.i2)
  | .count => 5 * (n - s.i2) - 1
  | .set => 5 * (n - s.i2) + 3
  | .killed | .done => 0

/-- `thread2_handler` never waits. -/
theorem Rounds.exists_step2 (hr : Rounds T s) (hdone : s.pc2 ≠ .done) :
    ∃ a, (quiet T).guard s a ∧
      rank1 T.n ((quiet T).act a s) + rank2 T.n ((quiet T).act a s) <
        rank1 T.n s + rank2 T.n s := by
  obtain ⟨hflag, -, h2⟩ := hr
  suffices h : ∃ a, (guard s a ∧ a ≠ .sigint) ∧ rank1 T.n (act T a s) = rank1 T.n s ∧
      rank2 T.n (act T a s) < rank2 T.n s by
    obtain ⟨a, hg, heq, hlt⟩ := h
    exact ⟨a, hg, Nat.add_lt_add_of_le_of_lt heq.le hlt⟩
  cases hpc : s.pc2 with
  | unborn =>
    refine ⟨.start2, ⟨hpc, by decide⟩, rfl, ?_⟩
    simp [act, rank2, hpc]
  | head =>
    refine ⟨.head2, ⟨hpc, by decide⟩, rfl, ?_⟩
    by_cases hn : s.i2 = T.n <;> simp [act, rank2, hpc, hflag, hn]
  | logCmd =>
    refine ⟨.logCmd2, ⟨hpc, by decide⟩, rfl, ?_⟩
    simp [act, rank2, hpc]
  | publish =>
    simp only [Rounds2, hpc] at h2
    refine ⟨.publish2, ⟨hpc, by decide⟩, rfl, ?_⟩
    simp only [act, rank2, hpc]
    omega
  | count =>
    simp only [Rounds2, hpc] at h2
    refine ⟨.count2, ⟨hpc, by decide⟩, rfl, ?_⟩
    simp only [act, rank2, hpc]
    omega
  | set =>
    refine ⟨.set2, ⟨hpc, by decide⟩, rfl, ?_⟩
    simp [act, rank2, hpc]
  | killed => simp only [Rounds2, hpc] at h2
  | done => exact absurd hpc hdone

/-- `thread1_handler` goes on while it is not done and `send` is set. -/
theorem Rounds.exists_step1 (hr : Rounds T s) (hdone : s.pc1 ≠ .done)
    (hwait : s.pc1 = .poll ∨ s.pc1 = .pollFlag → s.send = true) :
    ∃ a, (quiet T).guard s a ∧
      rank1 T.n ((quiet T).act a s) + rank2 T.n ((quiet T).act a s) <
        rank1 T.n s + rank2 T.n s := by
  obtain ⟨hflag, h1, -⟩ := hr
  suffices h : ∃ a, (guard s a ∧ a ≠ .sigint) ∧ rank1 T.n (act T a s) < rank1 T.n s ∧
      rank2 T.n (act T a s) = rank2 T.n s by
    obtain ⟨a, hg, hlt, heq⟩ := h
    exact ⟨a, hg, Nat.add_lt_add_of_lt_of_le hlt heq.le⟩
  cases hpc : s.pc1 with
  | head =>
    refine ⟨.head1, ⟨hpc, by decide⟩, ?_, rfl⟩
    by_cases hn : s.i1 = T.n <;> simp [act, rank1, hpc, hflag, hn]
  | publish =>
    simp only [Rounds1, hpc] at h1
    refine ⟨.publish1, ⟨hpc, by decide⟩, ?_, rfl⟩
    simp only [act, rank1, hpc]
    omega
  | poll =>
    simp only [Rounds1, hpc] at h1
    refine ⟨.poll1, ⟨hpc, by decide⟩, ?_, rfl⟩
    simp only [act, rank1, hpc, hwait (Or.inl hpc), if_true]
    omega
  | pollFlag =>
    simp only [Rounds1, hpc] at h1
    refine ⟨.pollFlag1, ⟨hpc, by decide⟩, ?_, rfl⟩
    simp only [act, rank1, hpc, hflag, Bool.false_eq_true, if_false]
    omega
  | logAck =>
    simp only [Rounds1, hpc] at h1
    refine ⟨.logAck1, ⟨hpc, by decide⟩, ?_, rfl⟩
    simp only [act, rank1, hpc]
    omega
  | clear =>
    simp only [Rounds1, hpc] at h1
    refine ⟨.clear1, ⟨hpc, by decide⟩, ?_, rfl⟩
    simp only [act, rank1, hpc]
    omega
  | count =>
    simp only [Rounds1, hpc] at h1
    refine ⟨.count1, ⟨hpc, by decide⟩, ?_, rfl⟩
    simp only [act, rank1, hpc]
    omega
  | killed => simp only [Rounds1, hpc] at h1
  | done => exact absurd hpc hdone

/-- Once a setting is lost, `thread1_handler` cannot finish. -/
theorem Rounds.not_done1 (hr : Rounds T s) (h : s.useful < s.sets) (hdone2 : s.pc2 = .done) :
    s.pc1 ≠ .done := by
  intro hpc
  obtain ⟨-, h1, h2⟩ := hr
  simp only [Rounds1, hpc] at h1
  simp only [Rounds2, hdone2] at h2
  simp only [State.useful, State.taken, State.sets, hpc, hdone2] at h
  omega

/-- A state in which a setting is lost: `thread1_handler` is stranded, or a step leads
    nearer to the end and keeps the setting lost. -/
theorem stranded_or_step (hs : (quiet T).Reachable s) (h : s.useful < s.sets) :
    Stranded T s ∨ ∃ a, (quiet T).guard s a ∧
      ((quiet T).Reachable ((quiet T).act a s) ∧
        ((quiet T).act a s).useful < ((quiet T).act a s).sets) ∧
      rank1 T.n ((quiet T).act a s) + rank2 T.n ((quiet T).act a s) <
        rank1 T.n s + rank2 T.n s := by
  have hr := rounds_of_reachable hs
  by_cases hdone2 : s.pc2 = .done
  · by_cases hwait : (s.pc1 = .poll ∨ s.pc1 = .pollFlag) ∧ s.send = false
    · left
      have hlt : s.i1 < T.n := by
        have h1 := hr.rounds1
        rcases hwait.1 with hpc | hpc <;> simpa only [Rounds1, hpc] using h1
      exact ⟨hdone2, hwait.1, hwait.2, hlt⟩
    · right
      rw [not_and, Bool.not_eq_false] at hwait
      obtain ⟨a, hg, hlt⟩ := hr.exists_step1 (hr.not_done1 h hdone2) hwait
      exact ⟨a, hg, ⟨hs.step a hg, useful_lt_step hs hg h⟩, hlt⟩
  · right
    obtain ⟨a, hg, hlt⟩ := hr.exists_step2 hdone2
    exact ⟨a, hg, ⟨hs.step a hg, useful_lt_step hs hg h⟩, hlt⟩

/-- From every state in which a setting is lost the handlers can go on until
    `thread1_handler` is stranded. -/
theorem exists_stranded (hs : (quiet T).Reachable s) (h : s.useful < s.sets) :
    ∃ bs s', (quiet T).Run s bs s' ∧ Stranded T s' := by
  obtain ⟨bs, s', hrun, -, hstranded⟩ := Program.exists_run_of_rank
    (V := fun s => rank1 T.n s + rank2 T.n s)
    (I := fun s => (quiet T).Reachable s ∧ s.useful < s.sets)
    (fun s hs => stranded_or_step hs.1 hs.2) ⟨hs, h⟩
  exact ⟨bs, s', hrun, hstranded⟩

/-- Where every setting of `send` in a run is made on a cleared `send`, the run ends in
    no state in which `thread1_handler` is stranded; otherwise it can be continued to
    one. -/
theorem stranded_iff (T : Tables) {ptr ptr1 : Record} {as : List Action} {s : State}
    (h : (quiet T).Run (start ptr ptr1) as s) :
    ((quiet T).Meets SetsCleared as (start ptr ptr1) → ¬ Stranded T s) ∧
    (¬ (quiet T).Meets SetsCleared as (start ptr ptr1) →
      ∃ bs s', (quiet T).Run s bs s' ∧ Stranded T s') := by
  have hinit : (quiet T).Reachable (start ptr ptr1) := .init ⟨ptr, ptr1, rfl⟩
  constructor
  · intro hm
    have hrun := Program.run_restrict_iff.mpr ⟨h, hm⟩
    exact not_stranded_of_setsCleared (Program.Reachable.run (.init ⟨ptr, ptr1, rfl⟩) hrun)
  · intro hm
    exact exists_stranded (hinit.run h) (useful_lt_of_not_meets hinit h (Or.inr hm))

/-- `thread2_handler` makes one round after the first publication. -/
def oneRound : List Action :=
  [.head1, .publish1, .start2, .head2, .logCmd2, .publish2, .count2, .set2]

theorem stranded_iff_one_round :
    ∃ s, (quiet ⟨10, fun _ => default, fun _ => default⟩).exec oneRound
        (start default default) = some s ∧
      s.send = true ∧ ¬ Stranded ⟨10, fun _ => default, fun _ => default⟩ s := by
  refine ⟨_, rfl, rfl, ?_⟩
  refine (stranded_iff ⟨10, fun _ => default, fun _ => default⟩
    (Program.run_of_exec _ oneRound _ rfl)).1 ?_
  exact ⟨by decide, by decide, by decide, by decide, by decide, by decide, by decide, by decide,
    trivial⟩

/-- `thread2_handler` makes all its rounds before `thread1_handler` looks at `send`. -/
def rushedRun : List Action :=
  [.head1, .publish1, .start2] ++
    (List.replicate 10 [.head2, .logCmd2, .publish2, .count2, .set2]).flatten ++
    [.head2, .poll1, .logAck1, .clear1, .count1, .head1, .publish1]

theorem stranded_after_rush :
    ¬ ∀ s, (quiet ⟨10, fun _ => default, fun _ => default⟩).Reachable s →
      ¬ Stranded ⟨10, fun _ => default, fun _ => default⟩ s := by
  intro hall
  have hinit : (quiet ⟨10, fun _ => default, fun _ => default⟩).Reachable
      (start default default) := .init ⟨default, default, rfl⟩
  have hreach := hinit.run (Program.run_of_exec _ rushedRun _ rfl)
  exact hall _ hreach ⟨rfl, Or.inl rfl, rfl, by decide⟩

end Apes.SharedMemory
