import Apes.Ipc.PipesDescriptors

/-!
# Shutting `pipes.c` down

`SIGINT` may come at any time, and it does not have to interrupt a `read`. A handler that
leaves after the signal closes the pipe it writes to, and one that has made all its rounds
has left more bytes in it than the other handler can read. So nobody waits forever.
-/

namespace Apes.Pipes

open Apes

variable {T : Tables} {s : State} {a : Action} {r : Role}

/-- A step of a handler that the signal does not force: `read` is not interrupted. -/
def Action.Own : Action → Prop
  | .sigint | .read1 false | .read2 false => False
  | _ => True

/-! ## The invariant -/

/-- The counters of `thread1_handler`, whatever its reads return. -/
def Rounds1 (n : ℕ) (h : Handler (List UInt8)) : Prop :=
  match h.pc with
  | .head | .log => h.sent = h.i ∧ h.got.length ≤ h.i ∧ h.i ≤ n
  | .send => h.sent = h.i ∧ h.got.length ≤ h.i ∧ h.i < n
  | .count => h.sent = h.i + 1 ∧ h.got.length ≤ h.i ∧ h.i < n
  | .call | .waiting => h.sent = h.i ∧ h.got.length < h.i ∧ h.i ≤ n
  | .done => h.sent = h.i ∧ h.got.length ≤ h.i ∧ h.i = n
  | .close | .closeNext | .killed => True

/-- The counters of `thread2_handler`, whatever its reads return. -/
def Rounds2 (n : ℕ) (h : Handler (List UInt8)) : Prop :=
  match h.pc with
  | .head => h.sent = h.i ∧ h.got.length ≤ h.i ∧ h.i ≤ n
  | .call | .waiting => h.sent = h.i ∧ h.got.length ≤ h.i ∧ h.i < n
  | .log | .send => h.sent = h.i ∧ h.got.length ≤ h.i + 1 ∧ h.i < n
  | .count => h.sent = h.i + 1 ∧ h.got.length ≤ h.i + 1 ∧ h.i < n
  | .done => h.sent = h.i ∧ h.got.length ≤ h.i ∧ h.i = n
  | .close | .closeNext | .killed => True

def Rounds : Role → ℕ → Handler (List UInt8) → Prop
  | .first => Rounds1
  | .second => Rounds2

/-- A pipe after `w` writes and at most `r` reads: a write appends `n` records, a read takes
    at most one. -/
def Kept (n w r : ℕ) (p : Pipe) : Prop := recordSize * (n * w) ≤ p.bytes.length + recordSize * r

theorem Kept.write {n w r i : ℕ} {p : Pipe} {t : ℕ → Record} {past : ℕ → UInt8}
    (h : Kept n w r p) : Kept n (w + 1) r (p.write n t past i) := by
  have hlen : (p.write n t past i).bytes.length = p.bytes.length + recordSize * n := by
    simp [Pipe.write]
  have hmul : recordSize * (n * (w + 1)) = recordSize * (n * w) + recordSize * n := by
    rw [Nat.mul_succ, Nat.mul_add]
  rw [Kept, hlen, hmul]
  have hkept : recordSize * (n * w) ≤ p.bytes.length + recordSize * r := h
  omega

theorem Kept.read {n w r : ℕ} {p : Pipe} (h : Kept n w r p) : Kept n w (r + 1) p.read := by
  have hlen : p.read.bytes.length = p.bytes.length - recordSize := by
    simp [Pipe.read]
  have hkept : recordSize * (n * w) ≤ p.bytes.length + recordSize * r := h
  rw [Kept, hlen, Nat.mul_succ]
  omega

/-- At an empty pipe `n` records have been read for each write. -/
theorem Kept.le_of_nil {n w r : ℕ} {p : Pipe} (h : Kept n w r p) (hnil : p.bytes = []) :
    n * w ≤ r := by
  rw [Kept, hnil, List.length_nil, Nat.zero_add] at h
  exact Nat.le_of_mul_le_mul_left h (by decide)

structure Shape (T : Tables) (s : State) : Prop where
  ends : AllEnds s
  rounds (r : Role) : Rounds r T.n (s.thread r)
  kept (r : Role) : Kept T.n (s.thread r).sent (s.thread r.other).got.length (s.fd r)

/-- How many steps `thread1_handler` makes at most. -/
def stepsLeft1 (n : ℕ) (h : Handler (List UInt8)) : ℕ :=
  match h.pc with
  | .head => 7 * (n - h.i) + 3
  | .send => 7 * (n - h.i) + 2
  | .count => 7 * (n - h.i) + 1
  | .call => 7 * (n - h.i) + 6
  | .waiting => 7 * (n - h.i) + 5
  | .log => 7 * (n - h.i) + 4
  | .close => 2
  | .closeNext => 1
  | .killed | .done => 0

/-- How many steps `thread2_handler` makes at most. -/
def stepsLeft2 (n : ℕ) (h : Handler (List UInt8)) : ℕ :=
  match h.pc with
  | .head => 7 * (n - h.i) + 3
  | .call => 7 * (n - h.i) + 2
  | .waiting => 7 * (n - h.i) + 1
  | .log => 7 * (n - h.i)
  | .send => 7 * (n - h.i) - 1
  | .count => 7 * (n - h.i) - 2
  | .close => 2
  | .closeNext => 1
  | .killed | .done => 0

def stepsLeftOf : Role → ℕ → Handler (List UInt8) → ℕ
  | .first => stepsLeft1
  | .second => stepsLeft2

/-! ## The steps -/

/-- The check at the head of the loop keeps the counters of the handler, and its rank falls. -/
theorem rounds_checkHead {n : ℕ} {h : Handler (List UInt8)} (hpc : h.pc = .head)
    (hr : Rounds r n h) (flag : Bool) :
    Rounds r n (h.checkHead flag n (r.next .head)) ∧
      stepsLeftOf r n (h.checkHead flag n (r.next .head)) < stepsLeftOf r n h := by
  unfold Handler.checkHead
  cases flag with
  | true =>
    cases r <;> simp only [Rounds, Rounds1, Rounds2, stepsLeftOf, stepsLeft1, stepsLeft2, hpc,
      if_true, true_and] <;> omega
  | false =>
    by_cases hn : h.i = n
    · cases r <;> simp only [Rounds, Rounds1, Rounds2, stepsLeftOf, stepsLeft1, stepsLeft2, hpc,
        Bool.false_eq_true, if_false, if_pos hn] at hr ⊢ <;> omega
    · cases r <;> simp only [Rounds, Rounds1, Rounds2, stepsLeftOf, stepsLeft1, stepsLeft2, hpc,
        Role.next, Bool.false_eq_true, if_false, if_neg hn] at hr ⊢ <;> omega

namespace Moves

variable {flag : Bool} {n w : ℕ} {t : ℕ → Record} {h h' : Handler (List UInt8)}
  {own own' peer peer' : Pipe}

/-- A step keeps the counters of the handler, and its rank falls. The pipe of a handler that
    writes is open. -/
theorem rounds (hm : Moves r flag n t h own peer h' own' peer') (hr : Rounds r n h)
    (he : Ends own h.pc) : Rounds r n h' ∧ stepsLeftOf r n h' < stepsLeftOf r n h := by
  cases hm with
  | head hpc => exact rounds_checkHead hpc hr flag
  | writeFails hpc hclosed =>
    have hkilled := he.write.mp hclosed
    rw [hpc] at hkilled
    cases hkilled
  | write _ hpc | count hpc | call hpc | callFails hpc | readNothing hpc | log hpc | closeRead hpc
  | closeWrite hpc =>
    cases r <;>
      simp only [Rounds, Rounds1, Rounds2, stepsLeftOf, stepsLeft1, stepsLeft2, hpc, Handler.send,
        Handler.count, Handler.goto, Handler.writeLog, Role.next, if_true, true_and] at hr ⊢ <;>
      omega
  | read hpc =>
    cases r <;>
      simp only [Rounds, Rounds1, Rounds2, stepsLeftOf, stepsLeft1, stepsLeft2, hpc, readInto,
        List.length_append, List.length_singleton] at hr ⊢ <;>
      omega

theorem kept_own {g : ℕ} (hm : Moves r flag n t h own peer h' own' peer')
    (hk : Kept n h.sent g own) : Kept n h'.sent g own' := by
  cases hm with
  | write => exact hk.write
  | _ => exact hk

theorem kept_peer (hm : Moves r flag n t h own peer h' own' peer')
    (hk : Kept n w h.got.length peer) : Kept n w h'.got.length peer' := by
  cases hm with
  | read =>
    have hgot : (readInto h peer.peek).got.length = h.got.length + 1 := List.length_append
    exact hgot.symm ▸ hk.read
  | _ => exact hk

end Moves

namespace Shape

theorem start (T : Tables) (buff1 buff2 : List UInt8) : Shape T (start buff1 buff2) where
  ends := AllEnds.start buff1 buff2
  rounds r := by cases r <;> exact ⟨rfl, le_rfl, Nat.zero_le _⟩
  kept r := by cases r <;> exact Nat.zero_le _

/-- A step of one handler. -/
theorem moves (hi : Shape T s) (hg : guard s a) (ha : a.By r) : Shape T (act T a s) := by
  have hm := act_moves (T := T) hg ha
  have hsame := thread_act (T := T) (s := s) ha.not_other
  refine ⟨hi.ends.moves hg ha, fun r' => ?_, fun r' => ?_⟩
  · rcases r.eq_or_eq_other r' with rfl | rfl
    · exact (hm.rounds (hi.rounds r') (hi.ends r')).1
    · rw [hsame]
      exact hi.rounds r.other
  · rcases r.eq_or_eq_other r' with rfl | rfl
    · rw [hsame]
      exact hm.kept_own (hi.kept r')
    · have hkept := hi.kept r.other
      rw [Role.other_other] at hkept
      rw [hsame, Role.other_other]
      exact hm.kept_peer hkept

theorem act (hi : Shape T s) (hg : guard s a) : Shape T (act T a s) := by
  cases a with
  | sigint => exact ⟨hi.ends.act hg, hi.rounds, hi.kept⟩
  | head1 | write1 | count1 | call1 | read1 | log1 | closeRead1 | closeWrite1 =>
    exact hi.moves (r := .first) hg trivial
  | head2 | call2 | read2 | log2 | write2 | count2 | closeRead2 | closeWrite2 =>
    exact hi.moves (r := .second) hg trivial

theorem init (h0 : (program T).init s) : Shape T s := by
  obtain ⟨buff1, buff2, -, -, rfl⟩ := h0
  exact start T buff1 buff2

end Shape

/-- The rank of both handlers. -/
def stepsLeft (T : Tables) (s : State) : ℕ := stepsLeft1 T.n s.thread1 + stepsLeft2 T.n s.thread2

theorem stepsLeft_moves (hi : Shape T s) (hg : guard s a) (ha : a.By r) :
    stepsLeft T (act T a s) < stepsLeft T s := by
  have hlt := ((act_moves (T := T) hg ha).rounds (hi.rounds r) (hi.ends r)).2
  have hsame := thread_act (T := T) (s := s) ha.not_other
  cases r with
  | first =>
    rw [stepsLeft, show (act T a s).thread2 = s.thread2 from hsame]
    exact Nat.add_lt_add_right hlt _
  | second =>
    rw [stepsLeft, show (act T a s).thread1 = s.thread1 from hsame]
    exact Nat.add_lt_add_left hlt _

theorem stepsLeft_act (hi : Shape T s) (hg : guard s a) (hq : a.Quiet) :
    stepsLeft T (act T a s) < stepsLeft T s := by
  cases a with
  | sigint => exact hq.elim
  | head1 | write1 | count1 | call1 | read1 | log1 | closeRead1 | closeWrite1 =>
    exact stepsLeft_moves (r := .first) hi hg trivial
  | head2 | call2 | read2 | log2 | write2 | count2 | closeRead2 | closeWrite2 =>
    exact stepsLeft_moves (r := .second) hi hg trivial

/-! ## Nobody waits forever -/

/-- How a handler that has not exited goes on. -/
def ownStep : Role → Pc → Action
  | .first, .head => .head1
  | .first, .send => .write1 fun _ => 0
  | .first, .count => .count1
  | .first, .call => .call1
  | .first, .waiting => .read1 true
  | .first, .log => .log1
  | .first, .close => .closeRead1
  | .first, .closeNext => .closeWrite1
  | .second, .head => .head2
  | .second, .call => .call2
  | .second, .waiting => .read2 true
  | .second, .log => .log2
  | .second, .send => .write2 fun _ => 0
  | .second, .count => .count2
  | .second, .close => .closeRead2
  | .second, .closeNext => .closeWrite2
  | _, .killed | _, .done => .sigint

theorem guard_ownStep (hexit : ¬ (s.thread r).Exited)
    (hread : (s.thread r).pc = .waiting → CanRead (s.fd r.other)) :
    (ownStep r (s.thread r).pc).Own ∧ guard s (ownStep r (s.thread r).pc) := by
  cases r <;> simp only [State.thread] at hexit hread ⊢ <;> generalize hpc : Handler.pc _ = pc <;>
    cases pc with
    | killed => exact absurd (Or.inl hpc) hexit
    | done => exact absurd (Or.inr hpc) hexit
    | waiting => exact ⟨trivial, hpc, hread hpc⟩
    | _ => exact ⟨trivial, hpc⟩

/-- Outside `read` a handler that has not exited can go on. -/
theorem waiting_of_not_own (hexit : ¬ (s.thread r).Exited) (hown : ∀ a, a.Own → ¬ guard s a) :
    (s.thread r).pc = .waiting ∧ ¬ CanRead (s.fd r.other) := by
  by_contra hnot
  have hstep := guard_ownStep hexit fun hpc => not_not.mp fun hread => hnot ⟨hpc, hread⟩
  exact hown _ hstep.1 hstep.2

namespace Shape

theorem got_lt (hi : Shape T s) (hpc : (s.thread r).pc = .waiting) :
    (s.thread r).got.length < T.n := by
  have hr := hi.rounds r
  cases r <;> simp only [Rounds, Rounds1, Rounds2, hpc] at hr <;> omega

theorem sent_eq (hi : Shape T s) (hpc : (s.thread r).pc = .done) : (s.thread r).sent = T.n := by
  have hr := hi.rounds r
  cases r <;> simp only [Rounds, Rounds1, Rounds2, hpc] at hr <;> omega

end Shape

/-- A handler waits at an empty pipe only while the other one can still write. -/
theorem not_exited (hi : Shape T s) (hpc : (s.thread r).pc = .waiting)
    (hempty : ¬ CanRead (s.fd r.other)) : ¬ (s.thread r.other).Exited := by
  rintro (hkilled | hdone)
  · exact hempty (Or.inr ((hi.ends r.other).write.mpr hkilled))
  · have hkept := hi.kept r.other
    rw [Role.other_other] at hkept
    have hreads := hkept.le_of_nil (not_not.mp fun hne => hempty (Or.inl hne))
    rw [hi.sent_eq hdone] at hreads
    have hgot := hi.got_lt hpc
    have hsq : T.n ≤ T.n * T.n := Nat.le_mul_self T.n
    omega

/-- Both handlers never wait at the same time: before it waits, `thread1_handler` has sent a
    whole table. -/
theorem not_both_waiting (hi : Shape T s) (h1 : s.thread1.pc = .waiting)
    (h2 : s.thread2.pc = .waiting) : CanRead s.fd1 := by
  have hr1 : Rounds1 T.n s.thread1 := hi.rounds .first
  have hr2 : Rounds2 T.n s.thread2 := hi.rounds .second
  simp only [Rounds1, h1] at hr1
  simp only [Rounds2, h2] at hr2
  refine Or.inl fun hnil => ?_
  have hreads : T.n * s.thread1.sent ≤ s.thread2.got.length := (hi.kept .first).le_of_nil hnil
  have htable : T.n * 1 ≤ T.n * s.thread1.sent :=
    Nat.mul_le_mul_left T.n (by omega)
  omega

/-- Whenever the signals come, one of the handlers can go on until both have exited, and
    together they take at most `14 n + 6` steps. -/
theorem exits_whenever_sigint (T : Tables) :
    (∀ s, (program T).Reachable s →
      (s.thread1.Exited ∧ s.thread2.Exited) ∨ ∃ a, a.Own ∧ (program T).guard s a) ∧
    ∀ s as s', (program T).init s → (program T).Run s as s' →
      (as.countP fun a => decide a.Quiet) ≤ 14 * T.n + 6 := by
  constructor
  · intro s hs
    have hi : Shape T s := hs.invariant (fun _ => Shape.init) fun _ _ _ hi hg => hi.act hg
    by_contra hstuck
    rw [not_or, not_exists] at hstuck
    have hown (a : Action) (ha : a.Own) : ¬ guard s a := fun hg => hstuck.2 a ⟨ha, hg⟩
    by_cases h1 : s.thread1.Exited
    · have h2 : ¬ s.thread2.Exited := fun h2 => hstuck.1 ⟨h1, h2⟩
      obtain ⟨hpc, hempty⟩ := waiting_of_not_own (r := .second) h2 hown
      exact not_exited hi hpc hempty h1
    · obtain ⟨hpc1, hempty1⟩ := waiting_of_not_own (r := .first) h1 hown
      obtain ⟨hpc2, hempty2⟩ := waiting_of_not_own (not_exited hi hpc1 hempty1) hown
      exact hempty2 (not_both_waiting hi hpc1 hpc2)
  · intro s as s' h0 hrun
    have hfall (s : State) (a : Action) (hi : Shape T s) (hg : guard s a) :
        Shape T (act T a s) ∧
          stepsLeft T (act T a s) + (if decide a.Quiet then 1 else 0) ≤ stepsLeft T s := by
      refine ⟨hi.act hg, ?_⟩
      by_cases hq : a.Quiet
      · simpa [hq, Nat.succ_le_iff] using stepsLeft_act hi hg hq
      · cases a with
        | sigint => exact le_rfl
        | _ => exact absurd trivial hq
    have hle := Program.Run.countP_add_le (P := program T) hfall hrun (Shape.init h0)
    obtain ⟨buff1, buff2, -, -, rfl⟩ := h0
    have hstart : stepsLeft T (start buff1 buff2) = 14 * T.n + 6 := by
      simp only [stepsLeft, stepsLeft1, stepsLeft2, start, Handler.start]
      omega
    omega

end Apes.Pipes
