import Apes.Ipc.Parting
import Apes.Ipc.Pipes

/-!
# The lifetime of the descriptors of `pipes.c`

Each handler closes both ends of the pipe that it writes to, and so the end that the other
one reads from.
-/

namespace Apes.Pipes

open Apes Pc

variable {T : Tables} {s : State} {a : Action} {r : Role}

/-- The step uses a descriptor that is closed, or closes it again. -/
def Misuse (s : State) : Action → Prop
  | .write1 _ | .closeWrite1 => s.fd1.writeOpen = false
  | .call2 | .closeRead1 => s.fd1.readOpen = false
  | .write2 _ | .closeWrite2 => s.fd2.writeOpen = false
  | .call1 | .closeRead2 => s.fd2.readOpen = false
  | _ => False

/-- A handler closes the end of the pipe that the other one reads from only where the other
    one will not call `read` any more. -/
def Orderly (s : State) : Action → Prop
  | .closeRead1 => s.thread2.pc ≠ .call
  | .closeRead2 => ¬ s.thread1.pc.WillCall
  | _ => True

/-- Where the reading end of the own pipe is closed. -/
def ReadClosed (pc : Pc) : Prop := pc = .closeNext ∨ pc = .killed

theorem act1_thread2 : (act1 T s a).thread2 = s.thread2 := by
  unfold act1
  split <;> first | rfl | (split <;> rfl)

theorem act2_thread1 : (act2 T s a).thread1 = s.thread1 := by
  unfold act2
  split <;> first | rfl | (split <;> rfl)

/-! ## A step of one handler -/

def State.thread (s : State) : Role → Handler (List UInt8)
  | .first => s.thread1
  | .second => s.thread2

/-- The pipe that a handler writes to. -/
def State.fd (s : State) : Role → Pipe
  | .first => s.fd1
  | .second => s.fd2

/-- The steps of a handler. -/
def Action.By : Role → Action → Prop
  | .first, .head1 | .first, .write1 _ | .first, .count1 | .first, .call1 | .first, .read1 _
  | .first, .log1 | .first, .closeRead1 | .first, .closeWrite1 => True
  | .second, .head2 | .second, .call2 | .second, .read2 _ | .second, .log2 | .second, .write2 _
  | .second, .count2 | .second, .closeRead2 | .second, .closeWrite2 => True
  | _, _ => False

/-- What a step of a handler makes of the handler, of the pipe that it writes to and of the one
    that it reads from. -/
inductive Moves (r : Role) (flag : Bool) (n : ℕ) (t : ℕ → Record) (h : Handler (List UInt8))
    (own peer : Pipe) : Handler (List UInt8) → Pipe → Pipe → Prop
  | head (hpc : h.pc = .head) :
    Moves r flag n t h own peer (h.checkHead flag n (r.next .head)) own peer
  | write (past : ℕ → UInt8) (hpc : h.pc = .send) (hopen : own.writeOpen = true) :
    Moves r flag n t h own peer (h.send true .count) (own.write n t past h.i) peer
  | writeFails (hpc : h.pc = .send) (hclosed : own.writeOpen = false) :
    Moves r flag n t h own peer (h.send false .count) own peer
  | count (hpc : h.pc = .count) : Moves r flag n t h own peer (h.count (r.next .count)) own peer
  | call (hpc : h.pc = .call) : Moves r flag n t h own peer (h.goto .waiting) own peer
  | callFails (hpc : h.pc = .call) : Moves r flag n t h own peer (h.goto .log) own peer
  | read (hpc : h.pc = .waiting) : Moves r flag n t h own peer (readInto h peer.peek) own peer.read
  | readNothing (hpc : h.pc = .waiting) : Moves r flag n t h own peer (h.goto .log) own peer
  | log (hpc : h.pc = .log) : Moves r flag n t h own peer (h.writeLog (r.next .log)) own peer
  | closeRead (hpc : h.pc = .close) :
    Moves r flag n t h own peer (h.goto .closeNext) { own with readOpen := false } peer
  | closeWrite (hpc : h.pc = .closeNext) :
    Moves r flag n t h own peer (h.goto .killed) { own with writeOpen := false } peer

/-- What a step of a handler does, whichever of the two it is. -/
theorem act_moves (hg : guard s a) (ha : a.By r) :
    Moves r s.flag T.n (T.records r) (s.thread r) (s.fd r) (s.fd r.other)
      ((act T a s).thread r) ((act T a s).fd r) ((act T a s).fd r.other) := by
  cases r with
  | first =>
    cases a with
    | head1 => exact .head hg
    | write1 past =>
      simp only [act, act1]
      split
      · next hopen => exact .write past hg hopen
      · next hopen => exact .writeFails hg (Bool.not_eq_true _ ▸ hopen)
    | count1 => exact .count hg
    | call1 =>
      simp only [act, act1]
      cases s.fd2.readOpen with
      | false => exact .callFails hg
      | true => exact .call hg
    | read1 ok =>
      cases ok with
      | false => exact .readNothing hg.1
      | true =>
        simp only [act, act1]
        split
        · exact .readNothing hg.1
        · exact .read hg.1
    | log1 => exact .log hg
    | closeRead1 => exact .closeRead hg
    | closeWrite1 => exact .closeWrite hg
    | _ => exact ha.elim
  | second =>
    cases a with
    | head2 => exact .head hg
    | call2 =>
      simp only [act, act2]
      cases s.fd1.readOpen with
      | false => exact .callFails hg
      | true => exact .call hg
    | read2 ok =>
      cases ok with
      | false => exact .readNothing hg.1
      | true =>
        simp only [act, act2]
        split
        · exact .readNothing hg.1
        · exact .read hg.1
    | log2 => exact .log hg
    | write2 past =>
      simp only [act, act2]
      split
      · next hopen => exact .write past hg hopen
      · next hopen => exact .writeFails hg (Bool.not_eq_true _ ▸ hopen)
    | count2 => exact .count hg
    | closeRead2 => exact .closeRead hg
    | closeWrite2 => exact .closeWrite hg
    | _ => exact ha.elim

theorem Action.By.not_other (ha : a.By r) : ¬ a.By r.other := by
  cases r <;> cases a <;> first | exact ha.elim | exact id

/-- A handler is left alone by all steps but its own. -/
theorem thread_act (ha : ¬ a.By r) : (act T a s).thread r = s.thread r := by
  cases r with
  | first =>
    cases a with
    | sigint => rfl
    | head2 | call2 | read2 | log2 | write2 | count2 | closeRead2 | closeWrite2 =>
      exact act2_thread1
    | _ => exact absurd trivial ha
  | second =>
    cases a with
    | sigint => rfl
    | head1 | write1 | count1 | call1 | read1 | log1 | closeRead1 | closeWrite1 =>
      exact act1_thread2
    | _ => exact absurd trivial ha

namespace Moves

variable {flag : Bool} {n : ℕ} {t : ℕ → Record} {h h' : Handler (List UInt8)}
  {own own' peer peer' : Pipe}

theorem next (hm : Moves r flag n t h own peer h' own' peer') : Next r flag h.pc h'.pc := by
  cases hm with
  | head hpc =>
    rw [hpc]
    exact Next.checkHead r h flag n
  | write _ hpc | writeFails hpc =>
    rw [hpc]
    exact .send
  | count hpc =>
    rw [hpc]
    exact .count
  | call hpc =>
    rw [hpc]
    exact .call
  | callFails hpc =>
    rw [hpc]
    exact .callFails
  | read hpc | readNothing hpc =>
    rw [hpc]
    exact .receive
  | log hpc =>
    rw [hpc]
    exact .log
  | closeRead hpc =>
    rw [hpc]
    exact .close
  | closeWrite hpc =>
    rw [hpc]
    exact .closeNext

/-- A handler closes no end of the pipe that it reads from. -/
theorem peer_open (hm : Moves r flag n t h own peer h' own' peer') :
    peer'.readOpen = peer.readOpen ∧ peer'.writeOpen = peer.writeOpen := by
  cases hm <;> exact ⟨rfl, rfl⟩

end Moves

/-! ## The ends of the pipes -/

/-- Which ends of its pipe a handler has closed. -/
structure Ends (p : Pipe) (pc : Pc) : Prop where
  read : p.readOpen = false ↔ ReadClosed pc
  write : p.writeOpen = false ↔ pc = .killed

theorem not_readClosed_of_next {flag : Bool} {pc' : Pc} (h : Next r flag .head pc') :
    ¬ ReadClosed pc' := by
  cases h with
  | enter => cases r <;> simp [ReadClosed, Role.next]
  | _ => simp [ReadClosed]

namespace Ends

variable {flag : Bool} {n : ℕ} {t : ℕ → Record} {h h' : Handler (List UInt8)}
  {own own' peer peer' : Pipe}

/-- A step that closes nothing. -/
theorem of_open (he : Ends own h.pc) (hpc : ¬ ReadClosed h.pc) (hpc' : ¬ ReadClosed h'.pc)
    (hread : own'.readOpen = own.readOpen) (hwrite : own'.writeOpen = own.writeOpen) :
    Ends own' h'.pc where
  read := by simp [hread, he.read, hpc, hpc']
  write := by
    have hk : h.pc ≠ .killed := fun hk => hpc (Or.inr hk)
    have hk' : h'.pc ≠ .killed := fun hk => hpc' (Or.inr hk)
    simp [hwrite, he.write, hk, hk']

theorem moves (he : Ends own h.pc) (hm : Moves r flag n t h own peer h' own' peer') :
    Ends own' h'.pc := by
  cases hm with
  | head hpc =>
    exact he.of_open (by simp [ReadClosed, hpc])
      (not_readClosed_of_next (Next.checkHead r h flag n)) rfl rfl
  | closeRead hpc =>
    have hwrite := he.write
    rw [hpc] at hwrite
    exact ⟨iff_of_true rfl (Or.inl rfl), hwrite.trans (iff_of_false nofun nofun)⟩
  | closeWrite hpc =>
    have hread := he.read
    rw [hpc] at hread
    exact ⟨hread.trans (iff_of_true (Or.inl rfl) (Or.inr rfl)), iff_of_true rfl rfl⟩
  | count hpc | log hpc =>
    refine he.of_open (by simp [ReadClosed, hpc]) ?_ rfl rfl
    cases r <;> simp [ReadClosed, Handler.count, Handler.writeLog, Role.next]
  | write _ hpc | writeFails hpc | call hpc | callFails hpc | read hpc | readNothing hpc =>
    exact he.of_open (by simp [ReadClosed, hpc])
      (by simp [ReadClosed, Handler.send, Handler.goto, readInto]) rfl rfl

end Ends

/-- The ends of both pipes. -/
def AllEnds (s : State) : Prop := ∀ r, Ends (s.fd r) (s.thread r).pc

namespace AllEnds

theorem start (buff1 buff2 : List UInt8) : AllEnds (start buff1 buff2) := by
  rintro (_ | _) <;> constructor <;> simp [Pipes.start, State.fd, State.thread, Handler.start,
    ReadClosed]

/-- A step of one handler. -/
theorem moves (he : AllEnds s) (hg : guard s a) (ha : a.By r) : AllEnds (act T a s) := by
  have hm := act_moves (T := T) hg ha
  intro r'
  rcases r.eq_or_eq_other r' with rfl | rfl
  · exact (he r').moves hm
  · rw [thread_act ha.not_other]
    obtain ⟨hread, hwrite⟩ := hm.peer_open
    exact ⟨hread ▸ (he r.other).read, hwrite ▸ (he r.other).write⟩

theorem act (he : AllEnds s) (hg : guard s a) : AllEnds (act T a s) := by
  cases a with
  | sigint => exact he
  | head1 | write1 | count1 | call1 | read1 | log1 | closeRead1 | closeWrite1 =>
    exact he.moves (r := .first) hg trivial
  | head2 | call2 | read2 | log2 | write2 | count2 | closeRead2 | closeWrite2 =>
    exact he.moves (r := .second) hg trivial

end AllEnds

theorem ends_of_reachable (hs : (program T).Reachable s) : AllEnds s := by
  refine hs.invariant (I := AllEnds) ?_ fun s a _ he hg => he.act hg
  rintro s ⟨buff1, buff2, -, -, rfl⟩
  exact AllEnds.start buff1 buff2

theorem act1_flag : (act1 T s a).flag = s.flag := by
  unfold act1
  split <;> first | rfl | (split <;> rfl)

theorem act2_flag : (act2 T s a).flag = s.flag := by
  unfold act2
  split <;> first | rfl | (split <;> rfl)

/-- The step in which a handler closes the end of its pipe that the other one reads from. -/
def closeReadOf : Role → Action
  | .first => .closeRead1
  | .second => .closeRead2

theorem eq_closeReadOf (hg : guard s a) (ha : a.By r) (hpc : (s.thread r).pc = .close) :
    a = closeReadOf r := by
  cases r <;> simp only [State.thread] at hpc <;>
    cases a <;> first | rfl | exact ha.elim | simp [guard, hpc] at hg

/-- A handler has closed that end only if it had before, or if it does so now. -/
theorem readClosed_of_act (hg : guard s a) (ha : a.By r)
    (hc : ReadClosed ((act T a s).thread r).pc) :
    ReadClosed (s.thread r).pc ∨ a = closeReadOf r := by
  have hn := (act_moves (T := T) hg ha).next
  generalize hpc : (s.thread r).pc = pc at hn ⊢
  generalize ((act T a s).thread r).pc = pc' at hn hc
  cases hn with
  | close | closeLast => exact Or.inr (eq_closeReadOf hg ha hpc)
  | closeNext => exact Or.inl (Or.inl rfl)
  | enter | count | log => cases r <;> simp [ReadClosed, Role.next] at hc
  | _ => simp [ReadClosed] at hc

theorem leaves_of_readClosed (pc : Pc) (h : ReadClosed pc) : pc.Leaves := Or.inr h

theorem parted_act1 (hp : Parted ReadClosed s.flag s.thread1.pc s.thread2.pc)
    (hg : guard s a) (ho : Orderly s a) (ha : a.By .first) :
    Parted ReadClosed s.flag (act T a s).thread1.pc s.thread2.pc := by
  refine hp.step1 leaves_of_readClosed (act_moves (T := T) hg ha).next fun hc => ?_
  rcases readClosed_of_act hg ha hc with hc | rfl
  · exact Or.inl hc
  · exact Or.inr ho

theorem parted_act2 (hp : Parted ReadClosed s.flag s.thread1.pc s.thread2.pc)
    (hg : guard s a) (ho : Orderly s a) (ha : a.By .second) :
    Parted ReadClosed s.flag s.thread1.pc (act T a s).thread2.pc := by
  refine hp.step2 leaves_of_readClosed (act_moves (T := T) hg ha).next fun hc => ?_
  rcases readClosed_of_act hg ha hc with hc | rfl
  · exact Or.inl hc
  · exact Or.inr ho

theorem parted_of_reachable (hs : ((program T).restrict Orderly).Reachable s) :
    Parted ReadClosed s.flag s.thread1.pc s.thread2.pc := by
  refine hs.invariant (I := fun s => Parted ReadClosed s.flag s.thread1.pc s.thread2.pc) ?_ ?_
  · rintro s ⟨buff1, buff2, -, -, rfl⟩
    exact Parted.start leaves_of_readClosed
  · rintro s a - hp ⟨hg, ho⟩
    have hg : guard s a := hg
    cases a with
    | sigint => exact hp.signal
    | head1 | write1 | count1 | call1 | read1 | log1 | closeRead1 | closeWrite1 =>
      have hp' := parted_act1 (T := T) hp hg ho trivial
      rwa [← act1_flag (T := T), ← act1_thread2 (T := T)] at hp'
    | head2 | call2 | read2 | log2 | write2 | count2 | closeRead2 | closeWrite2 =>
      have hp' := parted_act2 (T := T) hp hg ho trivial
      rwa [← act2_flag (T := T), ← act2_thread1 (T := T)] at hp'

/-- In an orderly run no descriptor is used or closed after it has been closed. -/
theorem not_misuse_of_orderly (hs : ((program T).restrict Orderly).Reachable s)
    (hg : guard s a) : ¬ Misuse s a := by
  have hp := parted_of_reachable hs
  have he := ends_of_reachable hs.of_restrict
  intro hm
  cases a with
  | write1 | closeWrite1 =>
    have hk : s.thread1.pc = .killed := (he .first).write.mp hm
    simp [guard, hk] at hg
  | closeRead1 =>
    have hk : ReadClosed s.thread1.pc := (he .first).read.mp hm
    rw [show s.thread1.pc = .close from hg] at hk
    simp [ReadClosed] at hk
  | call2 => exact hp.parted1 ((he .first).read.mp hm) hg
  | write2 | closeWrite2 =>
    have hk : s.thread2.pc = .killed := (he .second).write.mp hm
    simp [guard, hk] at hg
  | closeRead2 =>
    have hk : ReadClosed s.thread2.pc := (he .second).read.mp hm
    rw [show s.thread2.pc = .close from hg] at hk
    simp [ReadClosed] at hk
  | call1 => exact hp.parted2 ((he .second).read.mp hm) (Or.inr (Or.inr hg))
  | _ => exact hm

/-- Some step that misuses a descriptor can be made. -/
def CanMisuse (s : State) : Prop := ∃ a, guard s a ∧ Misuse s a

/-- `thread1_handler` goes on to its `read` of a closed descriptor. -/
theorem canMisuse_of_willCall (hw : s.thread1.pc.WillCall) (hclosed : s.fd2.readOpen = false) :
    (program T).CanReach CanMisuse s := by
  have hcall : ∀ {s : State}, s.thread1.pc = .call → s.fd2.readOpen = false →
      (program T).CanReach CanMisuse s :=
    fun hpc hclosed => .of_now ⟨.call1, hpc, hclosed⟩
  have hcount : ∀ {s : State}, s.thread1.pc = .count → s.fd2.readOpen = false →
      (program T).CanReach CanMisuse s :=
    fun hpc hclosed => .step .count1 hpc (hcall rfl hclosed)
  rcases hw with hpc | hpc | hpc
  · refine .step (.write1 fun _ => 0) hpc (hcount ?_ ?_) <;>
      (simp only [program, act, act1]; split) <;> first | rfl | exact hclosed
  · exact hcount hpc hclosed
  · exact hcall hpc hclosed

theorem canMisuse_of_not_orderly (ho : ¬ Orderly s a) :
    (program T).CanReach CanMisuse (act T a s) := by
  cases a with
  | closeRead1 => exact .of_now ⟨.call2, not_not.mp ho, rfl⟩
  | closeRead2 => exact canMisuse_of_willCall (not_not.mp ho) rfl
  | _ => exact absurd trivial ho

end Apes.Pipes
