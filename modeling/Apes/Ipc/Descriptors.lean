import Apes.Ipc.PipesDescriptors
import Apes.Ipc.QueuesLifetimes

/-!
# The lifetime of the descriptors

In `queues.c` a handler closes the queue that the other one receives from, and `main`
closes both queues once more; with `pipes.c` this gives the condition under which the two
programs neither use nor close a descriptor that has been closed.
-/

namespace Apes

open Pc

/-! ## `queues.c` -/

namespace Queues

variable {T : Tables} {s : State} {a : Action}

/-- The step uses a descriptor that is closed, or closes it again. -/
def Misuse (s : State) : Action → Prop
  | .send1 _ | .call2 _ | .close1 | .mainClose1 => ¬ s.mqdes1.IsOpen
  | .send2 _ | .call1 _ | .close2 | .mainClose2 => ¬ s.mqdes2.IsOpen
  | _ => False

/-- A handler closes its queue only where the other one will not call `mq_receive` on it any
    more, and `main` closes only what the handlers have left open. -/
def Orderly (s : State) : Action → Prop
  | .close1 => s.thread2.pc ≠ .call
  | .close2 => ¬ s.thread1.pc.WillCall
  | .mainClose1 => s.thread1.pc = .done
  | .mainClose2 => s.thread2.pc = .done
  | _ => True

theorem leaves_of_killed (pc : Pc) (h : pc = .killed) : pc.Leaves := Or.inr (Or.inr h)

theorem parted_act1 (hp : Parted (· = .killed) s.flag s.thread1.pc s.thread2.pc)
    (hg : guard s a) (ho : Orderly s a) (ha : a.By .first) :
    Parted (· = .killed) s.flag (act T a s).thread1.pc s.thread2.pc := by
  have hm := act_moves (T := T) hg ha
  refine hp.step1 leaves_of_killed hm.next fun hc => Or.inr ?_
  obtain rfl := eq_closeOf hg ha (hm.closes.1.mp hc)
  exact ho

theorem parted_act2 (hp : Parted (· = .killed) s.flag s.thread1.pc s.thread2.pc)
    (hg : guard s a) (ho : Orderly s a) (ha : a.By .second) :
    Parted (· = .killed) s.flag s.thread1.pc (act T a s).thread2.pc := by
  have hm := act_moves (T := T) hg ha
  refine hp.step2 leaves_of_killed hm.next fun hc => Or.inr ?_
  obtain rfl := eq_closeOf hg ha (hm.closes.1.mp hc)
  exact ho

theorem parted_of_reachable (hs : ((program T).restrict Orderly).Reachable s) :
    Parted (· = .killed) s.flag s.thread1.pc s.thread2.pc := by
  refine hs.invariant (I := fun s => Parted (· = .killed) s.flag s.thread1.pc s.thread2.pc) ?_ ?_
  · rintro s ⟨buff1, buff2, rfl⟩
    exact Parted.start leaves_of_killed
  · rintro s a - hp ⟨hg, ho⟩
    have hg : guard s a := hg
    cases a with
    | sigint => exact hp.signal
    | mainClose1 | mainClose2 => exact hp
    | head1 | send1 | count1 | call1 | receive1 | log1 | close1 =>
      have hp' := parted_act1 (T := T) hp hg ho trivial
      rwa [← act1_flag (T := T), ← act1_thread2 (T := T)] at hp'
    | head2 | call2 | receive2 | log2 | send2 | count2 | close2 =>
      have hp' := parted_act2 (T := T) hp hg ho trivial
      rwa [← act2_flag (T := T), ← act2_thread1 (T := T)] at hp'

/-- Before `main` closes the first queue it is open, unless `thread1_handler` has closed it. -/
theorem Lifetimes.mqdes1_open (hl : Lifetimes s) (hmain : s.main = .join)
    (h : s.thread1.pc ≠ .killed) : s.mqdes1.IsOpen := by
  rw [Mq.IsOpen, hl.closes1, if_neg h, if_pos hmain]

theorem Lifetimes.mqdes2_open (hl : Lifetimes s) (hmain : s.main ≠ .done)
    (h : s.thread2.pc ≠ .killed) : s.mqdes2.IsOpen := by
  rw [Mq.IsOpen, hl.closes2, if_neg h, if_neg hmain]

theorem Lifetimes.join_of_not_exited (hl : Lifetimes s)
    (h : ¬ (s.thread1.Exited ∧ s.thread2.Exited)) : s.main = .join := by
  by_contra hmain
  exact h (hl.main hmain)

/-- In an orderly run no descriptor is used or closed after it has been closed. -/
theorem not_misuse_of_orderly (hs : ((program T).restrict Orderly).Reachable s)
    (hg : guard s a) (ho : Orderly s a) : ¬ Misuse s a := by
  have hp := parted_of_reachable hs
  have hl := lifetimes_of_reachable hs.of_restrict
  intro hm
  cases a with
  | send1 ok => exact hm (hl.open1 (by simp [Handler.Exited, hg.1]))
  | close1 =>
    have hpc : s.thread1.pc = .close := hg
    exact hm (hl.open1 (by simp [Handler.Exited, hpc]))
  | call2 ok =>
    have hmain := hl.join_of_not_exited (by simp [Handler.Exited, hg.1])
    exact hm (hl.mqdes1_open hmain fun hk => hp.parted1 hk hg.1)
  | mainClose1 =>
    have hdone : s.thread1.pc = .done := ho
    exact hm (hl.mqdes1_open hg.1 (by simp [hdone]))
  | send2 ok => exact hm (hl.open2 (by simp [Handler.Exited, hg.1]))
  | close2 =>
    have hpc : s.thread2.pc = .close := hg
    exact hm (hl.open2 (by simp [Handler.Exited, hpc]))
  | call1 ok =>
    have hmain := hl.join_of_not_exited (by simp [Handler.Exited, hg.1])
    exact hm (hl.mqdes2_open (by simp [hmain]) fun hk => hp.parted2 hk (Or.inr (Or.inr hg.1)))
  | mainClose2 =>
    have hmain : s.main = .closeNext := hg
    have hdone : s.thread2.pc = .done := ho
    exact hm (hl.mqdes2_open (by simp [hmain]) (by simp [hdone]))
  | _ => exact hm

/-- Some step that misuses a descriptor can be made. -/
def CanMisuse (s : State) : Prop := ∃ a, guard s a ∧ Misuse s a

/-- `thread1_handler` goes on to its `mq_receive` on a closed descriptor. -/
theorem canMisuse_of_willCall (hw : s.thread1.pc.WillCall) (hclosed : ¬ s.mqdes2.IsOpen) :
    (program T).CanReach CanMisuse s := by
  have hcall : ∀ {s : State}, s.thread1.pc = .call → ¬ s.mqdes2.IsOpen →
      (program T).CanReach CanMisuse s :=
    fun hpc hclosed => .of_now ⟨.call1 false, ⟨hpc, nofun⟩, hclosed⟩
  have hcount : ∀ {s : State}, s.thread1.pc = .count → ¬ s.mqdes2.IsOpen →
      (program T).CanReach CanMisuse s :=
    fun hpc hclosed => .step .count1 hpc (hcall rfl hclosed)
  rcases hw with hpc | hpc | hpc
  · exact .step (.send1 false) ⟨hpc, nofun⟩ (hcount rfl hclosed)
  · exact hcount hpc hclosed
  · exact hcall hpc hclosed

theorem not_open_close (q : Mq) : ¬ q.close.IsOpen := Nat.succ_ne_zero _

/-- A step that is not orderly misuses a descriptor or makes the other handler do so. -/
theorem canMisuse_of_not_orderly (hs : (program T).Reachable s) (hg : guard s a)
    (ho : ¬ Orderly s a) :
    Misuse s a ∨ (program T).CanReach CanMisuse (act T a s) := by
  have hl := lifetimes_of_reachable hs
  cases a with
  | close1 =>
    exact Or.inr (.of_now ⟨.call2 false, ⟨not_not.mp ho, nofun⟩, not_open_close _⟩)
  | close2 => exact Or.inr (canMisuse_of_willCall (not_not.mp ho) (not_open_close _))
  | mainClose1 =>
    obtain ⟨hmain, h1, -⟩ := hg
    have hk : s.thread1.pc = .killed := h1.resolve_right ho
    refine Or.inl ?_
    simp [Misuse, Mq.IsOpen, hl.closes1, hk]
  | mainClose2 =>
    have hmain : s.main = .closeNext := hg
    have hk : s.thread2.pc = .killed := (hl.main (by simp [hmain])).2.resolve_right ho
    refine Or.inl ?_
    simp [Misuse, Mq.IsOpen, hl.closes2, hk]
  | _ => exact absurd trivial ho

end Queues

/-! ## Both programs -/

/-- In the orderly runs of both programs no descriptor is used or closed after it has been
    closed; a step that is not orderly always can lead to such a misuse, or is one. -/
theorem descriptors_orderly (T : Tables) :
    (∀ s a, ((Pipes.program T).restrict Pipes.Orderly).Reachable s → Pipes.guard s a →
      Pipes.Orderly s a → ¬ Pipes.Misuse s a) ∧
    (∀ s a, (Pipes.program T).Reachable s → Pipes.guard s a → ¬ Pipes.Orderly s a →
      (Pipes.program T).CanReach Pipes.CanMisuse (Pipes.act T a s)) ∧
    (∀ s a, ((Queues.program T).restrict Queues.Orderly).Reachable s → Queues.guard s a →
      Queues.Orderly s a → ¬ Queues.Misuse s a) ∧
    (∀ s a, (Queues.program T).Reachable s → Queues.guard s a → ¬ Queues.Orderly s a →
      Queues.Misuse s a ∨ (Queues.program T).CanReach Queues.CanMisuse (Queues.act T a s)) :=
  ⟨fun _ _ hs hg _ => Pipes.not_misuse_of_orderly hs hg,
    fun _ _ _ _ ho => Pipes.canMisuse_of_not_orderly ho,
    fun _ _ hs hg ho => Queues.not_misuse_of_orderly hs hg ho,
    fun _ _ hs hg ho => Queues.canMisuse_of_not_orderly hs hg ho⟩

/-- In `pipes.c` `thread2_handler` reads from the end of the pipe that `thread1_handler` has
    closed after `SIGINT`; in `queues.c` `main` closes the first queue a second time. -/
theorem descriptors_misused_after_sigint :
    (¬ ∀ s a, (Pipes.program ⟨10, fun _ => default, fun _ => default⟩).Reachable s →
      Pipes.guard s a → ¬ Pipes.Misuse s a) ∧
    ¬ ∀ s a, (Queues.program ⟨10, fun _ => default, fun _ => default⟩).Reachable s →
      Queues.guard s a → ¬ Queues.Misuse s a := by
  constructor
  · intro hall
    have hinit : (Pipes.program ⟨10, fun _ => default, fun _ => default⟩).Reachable
        (Pipes.start (List.replicate recordSize 0) (List.replicate recordSize 0)) :=
      .init ⟨_, _, List.length_replicate, List.length_replicate, rfl⟩
    have hreach :=
      (((hinit.step .head2 rfl).step .sigint trivial).step .head1 rfl).step .closeRead1 rfl
    exact hall _ .call2 hreach rfl rfl
  · intro hall
    have hinit : (Queues.program ⟨10, fun _ => default, fun _ => default⟩).Reachable
        (Queues.start default default) := .init ⟨default, default, rfl⟩
    have hreach := hinit.run
      (Program.run_of_exec _ [.sigint, .head1, .close1, .head2, .close2] _ rfl)
    exact hall _ .mainClose1 hreach ⟨rfl, Or.inl rfl, Or.inl rfl⟩ (Nat.succ_ne_zero 0)

end Apes
