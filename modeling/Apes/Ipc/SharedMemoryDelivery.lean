import Apes.Ipc.SharedMemory

/-!
# Delivery over the shared record

`thread2_handler` reads `ptr` without asking whether the record in it is new. It
logs every command exactly once in the runs in which each read happens to come
after the next publication and before the one after that.
-/

namespace Apes.SharedMemory

open Apes

variable {T : Tables} {s : State} {a : Action}

/-- `thread2_handler` reads a command only when one record more has been published
    than it has completed rounds. -/
def Timely (s : State) (a : Action) : Prop := a = .logCmd2 → s.published = s.i2 + 1

instance (s : State) (a : Action) : Decidable (Timely s a) :=
  inferInstanceAs (Decidable (_ → _))

/-- No step but the publication of a record changes the number of those published. -/
theorem Rounds.published_act (hr : Rounds T s) (hg : guard s a) (hq : a ≠ .sigint) :
    (act T a s).published = if a = .publish1 then s.published + 1 else s.published := by
  obtain ⟨hflag, h1, -⟩ := hr
  cases a with
  | sigint => exact absurd rfl hq
  | head1 =>
    have hpc : s.pc1 = .head := hg
    by_cases hn : s.i1 = T.n <;> simp [act, State.published, hpc, hflag, hn]
  | publish1 | logAck1 | clear1 | count1 =>
    simp only [guard] at hg
    simp [act, State.published, hg]
  | poll1 =>
    have hpc : s.pc1 = .poll := hg
    cases hs : s.send <;> simp [act, State.published, hpc, hs]
  | pollFlag1 =>
    have hpc : s.pc1 = .pollFlag := hg
    simp [act, State.published, hpc, hflag]
  | start2 | head2 | logCmd2 | publish2 | count2 | set2 => rfl

theorem Rounds.published_le (hr : Rounds T s) : s.published ≤ T.n := by
  have h1 := hr.rounds1
  cases hpc : s.pc1 <;> simp only [Rounds1, hpc] at h1 <;>
    simp only [State.published, hpc] <;> omega

/-- The shared record and the log of `thread2_handler` in a run in which it starts
    after the first publication. -/
structure Mailbox (T : Tables) (s : State) : Prop where
  rounds : Rounds T s
  ptr : 0 < s.published → s.ptr = T.t1 (s.published - 1)
  started : s.pc2 ≠ .unborn → 0 < s.published
  logged : s.logged2.length = if s.pc2 = .publish ∨ s.pc2 = .count then s.i2 + 1 else s.i2

theorem mailbox_start (T : Tables) (ptr ptr1 : Record) : Mailbox T (start ptr ptr1) where
  rounds := rounds_start T ptr ptr1
  ptr h := absurd h (Nat.lt_irrefl 0)
  started h := absurd rfl h
  logged := rfl

theorem Mailbox.step (hm : Mailbox T s) (hg : (delayed T).guard s a) : Mailbox T (act T a s) := by
  obtain ⟨⟨hg, hq⟩, hd⟩ : (guard s a ∧ a ≠ .sigint) ∧ (a = .start2 → 0 < s.published) := hg
  have hpub := hm.rounds.published_act hg hq
  have hrounds := hm.rounds.step hg hq
  obtain ⟨hr, hptr, hstarted, hlogged⟩ := hm
  cases a with
  | sigint => exact absurd rfl hq
  | publish1 =>
    have hpc : s.pc1 = .publish := hg
    refine ⟨hrounds, fun _ => ?_, fun _ => ?_, hlogged⟩
    · rw [hpub, if_pos rfl, Nat.add_sub_cancel]
      simp [act, State.published, hpc]
    · rw [hpub, if_pos rfl]
      exact Nat.succ_pos _
  | head1 | poll1 | pollFlag1 | logAck1 | clear1 | count1 =>
    rw [if_neg (by decide)] at hpub
    rw [← hpub] at hptr hstarted
    exact ⟨hrounds, hptr, hstarted, hlogged⟩
  | start2 =>
    rw [if_neg (by decide)] at hpub
    have hpc : s.pc2 = .unborn := hg
    refine ⟨hrounds, hpub ▸ hptr, fun _ => hpub ▸ hd rfl, ?_⟩
    simpa [act, hpc] using hlogged
  | head2 =>
    rw [if_neg (by decide)] at hpub
    have hpc : s.pc2 = .head := hg
    refine ⟨hrounds, hpub ▸ hptr, fun _ => hpub ▸ hstarted (by simp [hpc]), ?_⟩
    by_cases hn : s.i2 = T.n <;> simpa [act, hpc, hr.flag, hn] using hlogged
  | logCmd2 | publish2 | count2 | set2 =>
    rw [if_neg (by decide)] at hpub
    simp only [guard] at hg
    refine ⟨hrounds, hpub ▸ hptr, fun _ => hpub ▸ hstarted (by simp [hg]), ?_⟩
    simpa [act, hg] using hlogged

theorem mailbox_of_reachable (hs : (delayed T).Reachable s) : Mailbox T s := by
  refine hs.invariant ?_ fun s a _ hm hg => hm.step hg
  rintro s ⟨ptr, ptr1, rfl⟩
  exact mailbox_start T ptr ptr1

/-- What `thread2_handler` logs when it reads a command: the last record published,
    as the entry of its own round. -/
theorem Mailbox.read (hm : Mailbox T s) (hpc : s.pc2 = .logCmd) :
    0 < s.published ∧ s.ptr = T.t1 (s.published - 1) ∧ s.logged2.length = s.i2 ∧ s.i2 < T.n := by
  have hpos := hm.started (by simp [hpc])
  have hlen := hm.logged
  have h2 := hm.rounds.rounds2
  simp only [Rounds2, hpc] at h2
  rw [if_neg (by simp [hpc])] at hlen
  exact ⟨hpos, hm.ptr hpos, hlen, h2⟩

/-- Every entry of the log is the record of its round. -/
def InOrder (T : Tables) (s : State) : Prop := ∀ k r, s.logged2[k]? = some r → r = T.t1 k

theorem logged2_prefix_act (T : Tables) (a : Action) (s : State) :
    s.logged2 <+: (act T a s).logged2 := by
  cases a with
  | logCmd2 => exact List.prefix_append _ _
  | _ => exact List.prefix_rfl

theorem logged2_prefix {s' : State} {as : List Action} (h : (delayed T).Run s as s') :
    s.logged2 <+: s'.logged2 := by
  induction h with
  | nil => exact List.prefix_rfl
  | @cons s s' a as _ _ ih => exact (logged2_prefix_act T a s).trans ih

/-- A run whose reads are all timely keeps the log in order. -/
theorem inOrder_of_timely (hs : ((delayed T).restrict Timely).Reachable s) : InOrder T s := by
  refine hs.invariant ?_ fun s a hs ho hg => ?_
  · rintro s ⟨ptr, ptr1, rfl⟩ k r hk
    simp [start] at hk
  · obtain ⟨hg, ht⟩ := hg
    have hm := mailbox_of_reachable hs.of_restrict
    cases a with
    | logCmd2 =>
      obtain ⟨-, hptr, hlen, -⟩ := hm.read hg.1.1
      intro k r hk
      simp only [delayed, quiet, program, Program.restrict, act] at hk
      rw [hptr, ht rfl, Nat.add_sub_cancel] at hk
      rcases Nat.lt_or_ge k s.logged2.length with hlt | hge
      · rw [List.getElem?_append_left hlt] at hk
        exact ho k r hk
      · rw [List.getElem?_append_right hge, List.getElem?_singleton] at hk
        split at hk
        · next hzero =>
          obtain rfl := Option.some.inj hk
          rw [show k = s.i2 by omega]
        · cases hk
    | _ => exact ho

/-- Where the log of the end of a run is in order and the records differ from each
    other, all reads were timely. -/
theorem timely_of_inOrder (hinj : ∀ i < T.n, ∀ j < T.n, T.t1 i = T.t1 j → i = j)
    {as : List Action} {s s' : State} (hs : (delayed T).Reachable s)
    (h : (delayed T).Run s as s') (ho : InOrder T s') : (delayed T).Meets Timely as s := by
  induction h with
  | nil => exact trivial
  | @cons s s' a as hg hrun ih =>
    refine ⟨?_, ih (hs.step a hg) ho⟩
    rintro rfl
    obtain ⟨hpos, hptr, hlen, hlt⟩ := (mailbox_of_reachable hs).read hg.1.1
    have hle := (mailbox_of_reachable hs).rounds.published_le
    -- the entry that this step makes is still there at the end of the run
    have hentry : ((delayed T).act .logCmd2 s).logged2[s.i2]? = some s.ptr := by
      simp [delayed, quiet, program, Program.restrict, act, ← hlen]
    have hsame : s.ptr = T.t1 s.i2 := by
      obtain ⟨rest, hrest⟩ := logged2_prefix hrun
      refine ho s.i2 s.ptr ?_
      rw [← hrest, List.getElem?_append_left (List.getElem?_eq_some_iff.mp hentry).1]
      exact hentry
    have := hinj _ (by omega) _ hlt (hptr.symm.trans hsame)
    omega

/-- The log of `thread2_handler` is in order at the end of every run whose reads are
    all timely, and, where the records differ from each other, of no other run. -/
theorem inOrder_iff (T : Tables) {ptr ptr1 : Record} {as : List Action} {s : State}
    (h : (delayed T).Run (start ptr ptr1) as s) :
    ((delayed T).Meets Timely as (start ptr ptr1) → InOrder T s) ∧
    ((∀ i < T.n, ∀ j < T.n, T.t1 i = T.t1 j → i = j) → InOrder T s →
      (delayed T).Meets Timely as (start ptr ptr1)) := by
  have hinit : (delayed T).init (start ptr ptr1) := ⟨ptr, ptr1, rfl⟩
  constructor
  · intro hm
    have hrun := Program.run_restrict_iff.mpr ⟨h, hm⟩
    exact inOrder_of_timely (Program.Reachable.run (.init hinit) hrun)
  · intro hinj ho
    exact timely_of_inOrder hinj (.init hinit) h ho

/-- Records that differ from each other. -/
def numbered (k : ℕ) : Record := { (default : Record) with stringLen := UInt32.ofNat k }

def firstRead : List Action := [.head1, .publish1, .start2, .head2, .logCmd2]

/-- `thread2_handler` answers, `thread1_handler` takes the acknowledgement and publishes its
    second record, and `thread2_handler` reads that. -/
def secondRead : List Action :=
  [.publish2, .count2, .set2, .poll1, .logAck1, .clear1, .count1, .head1, .publish1, .head2,
    .logCmd2]

theorem inOrder_second_read :
    ∃ s, (delayed ⟨10, numbered, numbered⟩).exec (firstRead ++ secondRead)
        (start default default) = some s ∧
      s.logged2 = [numbered 0, numbered 1] ∧ InOrder ⟨10, numbered, numbered⟩ s := by
  refine ⟨_, rfl, rfl, ?_⟩
  refine (inOrder_iff ⟨10, numbered, numbered⟩
    (Program.run_of_exec _ (firstRead ++ secondRead) _ rfl)).1 ?_
  refine ⟨?_, ?_, ?_, ?_, ?_, ?_, ?_, ?_, ?_, ?_, ?_, ?_, ?_, ?_, ?_, ?_, trivial⟩ <;> decide

/-- `thread2_handler` goes through its first round and reads again before
    `thread1_handler` has seen `send`. -/
theorem inOrder_fails_twice :
    ¬ ∀ s, (delayed ⟨10, numbered, numbered⟩).Reachable s → InOrder ⟨10, numbered, numbered⟩ s := by
  intro hall
  have hinit : (delayed ⟨10, numbered, numbered⟩).Reachable (start default default) :=
    .init ⟨default, default, rfl⟩
  have hreach := hinit.run
    (Program.run_of_exec _ (firstRead ++ [.publish2, .count2, .set2, .head2, .logCmd2]) _ rfl)
  have hsame : numbered 0 = numbered 1 := hall _ hreach 1 (numbered 0) rfl
  exact absurd (congrArg Record.stringLen hsame) (by decide)

end Apes.SharedMemory
