import Apes.Ipc.PipesStream
import Apes.Ipc.Rounds

/-!
# Delivery over the pipes

Without a signal both handlers receive exactly the records of the peer's table, in
order, and both finish.
-/

namespace Apes.Pipes

open Apes Handler

variable {T : Tables} {s : State} {a : Action}

/-- What holds in every state of a run without a signal. -/
structure Inv (T : Tables) (s : State) : Prop where
  flag : s.flag = false
  open1 : s.fd1.readOpen = true ∧ s.fd1.writeOpen = true
  open2 : s.fd2.readOpen = true ∧ s.fd2.writeOpen = true
  requester : s.thread1.Requester T.n
  replier : s.thread2.Replier T.n
  buff1 : s.thread1.buff.length = recordSize
  buff2 : s.thread2.buff.length = recordSize
  carries1 : Carries T.n T.t1 s.thread1.sent s.thread2.got.length s.fd1
  carries2 : Carries T.n T.t2 s.thread2.sent s.thread1.got.length s.fd2
  got1 : s.thread1.got = (List.range s.thread1.got.length).map fun k => (T.t2 k).bytes
  got2 : s.thread2.got = (List.range s.thread2.got.length).map fun k => (T.t1 k).bytes

/-- How many steps the two handlers have still to make. -/
def rank (T : Tables) (s : State) : ℕ := s.thread1.requestRank T.n + s.thread2.replyRank T.n

/-- A read of a whole record overwrites the whole buffer. -/
theorem readInto_eq_receive {h : Handler (List UInt8)} {data : List UInt8}
    (hlen : h.buff.length = data.length) : readInto h data = h.receive data := by
  rw [readInto, Handler.receive, ← hlen, List.drop_length, List.append_nil]

/-- One more record of a table has been received. -/
theorem got_concat {got : List (List UInt8)} {t : ℕ → Record}
    (h : got = (List.range got.length).map fun k => (t k).bytes) :
    got ++ [(t got.length).bytes] =
      (List.range (got ++ [(t got.length).bytes]).length).map fun k => (t k).bytes := by
  rw [List.length_append, List.length_singleton, List.range_succ, List.map_append, ← h]
  rfl

namespace Inv

theorem start (T : Tables) {buff1 buff2 : List UInt8} (h1 : buff1.length = recordSize)
    (h2 : buff2.length = recordSize) : Inv T (start buff1 buff2) where
  flag := rfl
  open1 := ⟨rfl, rfl⟩
  open2 := ⟨rfl, rfl⟩
  requester := Requester.start T.n buff1
  replier := Replier.start T.n buff2
  buff1 := h1
  buff2 := h2
  carries1 := Carries.empty T.n T.t1
  carries2 := Carries.empty T.n T.t2
  got1 := rfl
  got2 := rfl

/-- A step of `thread1_handler` that touches no pipe. -/
theorem local1 (hi : Inv T s) {h' : Handler (List UInt8)} (hr : h'.Requester T.n)
    (hbuff : h'.buff = s.thread1.buff) (hsent : h'.sent = s.thread1.sent)
    (hgot : h'.got = s.thread1.got) : Inv T { s with thread1 := h' } :=
  { hi with
    requester := hr
    buff1 := by simpa only [hbuff] using hi.buff1
    carries1 := by simpa only [hsent] using hi.carries1
    carries2 := by simpa only [hgot] using hi.carries2
    got1 := by simpa only [hgot] using hi.got1 }

/-- A step of `thread2_handler` that touches no pipe. -/
theorem local2 (hi : Inv T s) {h' : Handler (List UInt8)} (hr : h'.Replier T.n)
    (hbuff : h'.buff = s.thread2.buff) (hsent : h'.sent = s.thread2.sent)
    (hgot : h'.got = s.thread2.got) : Inv T { s with thread2 := h' } :=
  { hi with
    replier := hr
    buff2 := by simpa only [hbuff] using hi.buff2
    carries1 := by simpa only [hgot] using hi.carries1
    carries2 := by simpa only [hsent] using hi.carries2
    got2 := by simpa only [hgot] using hi.got2 }

/-- While both ends are open a read returns only when there are bytes. -/
theorem nonempty1 (hi : Inv T s) (hc : CanRead s.fd1) : s.fd1.bytes ≠ [] :=
  hc.resolve_right (by simp [hi.open1.2])

theorem nonempty2 (hi : Inv T s) (hc : CanRead s.fd2) : s.fd2.bytes ≠ [] :=
  hc.resolve_right (by simp [hi.open2.2])

/-- What a read of `thread1_handler` delivers is the next record of `t2`. -/
theorem read1_eq (hi : Inv T s) (hpc : s.thread1.pc = .waiting) (hne : s.fd2.bytes ≠ []) :
    act1 T s (.read1 true) = { s with
      thread1 := s.thread1.receive (T.t2 s.thread1.got.length).bytes
      fd2 := s.fd2.read } := by
  have hpeek := hi.carries2.peek_eq hne (hi.requester.of_waiting hpc).2
  have hread : readInto s.thread1 (T.t2 s.thread1.got.length).bytes = s.thread1.receive _ :=
    readInto_eq_receive (by rw [hi.buff1, Record.bytes_length])
  simp only [act1, hne, if_false, hpeek, hread]

/-- What a read of `thread2_handler` delivers is the next record of `t1`. -/
theorem read2_eq (hi : Inv T s) (hpc : s.thread2.pc = .waiting) (hne : s.fd1.bytes ≠ []) :
    act2 T s (.read2 true) = { s with
      thread2 := s.thread2.receive (T.t1 s.thread2.got.length).bytes
      fd1 := s.fd1.read } := by
  have hpeek := hi.carries1.peek_eq hne (hi.replier.of_waiting hpc).2
  have hread : readInto s.thread2 (T.t1 s.thread2.got.length).bytes = s.thread2.receive _ :=
    readInto_eq_receive (by rw [hi.buff2, Record.bytes_length])
  simp only [act2, hne, if_false, hpeek, hread]

/-- A step keeps the invariant and brings its handler nearer to its end. -/
theorem step (hi : Inv T s) (hg : guard s a) (hq : a.Quiet) :
    Inv T (act T a s) ∧ rank T (act T a s) < rank T s := by
  cases a with
  | sigint => exact hq.elim
  | head1 =>
    obtain ⟨hr, hrank⟩ := hi.requester.checkHead hg hi.flag
    exact ⟨hi.local1 hr rfl rfl rfl, Nat.add_lt_add_right hrank _⟩
  | write1 past =>
    have hpc : s.thread1.pc = .send := hg
    obtain ⟨hr, hrank⟩ := hi.requester.send hpc
    have hround := (hi.requester.of_send hpc).1
    have hcarries := hi.carries1.write past
    simp only [act, act1, hi.open1.2, if_true]
    refine ⟨{ hi with open1 := hi.open1, requester := hr, carries1 := ?_ },
      Nat.add_lt_add_right hrank _⟩
    simpa only [Handler.send, ← hround, if_true] using hcarries
  | count1 =>
    obtain ⟨hr, hrank⟩ := hi.requester.count hg
    exact ⟨hi.local1 hr rfl rfl rfl, Nat.add_lt_add_right hrank _⟩
  | call1 =>
    obtain ⟨hr, hrank⟩ := hi.requester.call hg
    simp only [act, act1, hi.open2.1, if_true]
    exact ⟨hi.local1 hr rfl rfl rfl, Nat.add_lt_add_right hrank _⟩
  | read1 ok =>
    cases ok with
    | false => exact absurd hg.2 (by simp [hi.flag])
    | true =>
      have hpc : s.thread1.pc = .waiting := hg.1
      have hne := hi.nonempty2 hg.2
      obtain ⟨hr, hrank⟩ := hi.requester.receive hpc (T.t2 s.thread1.got.length).bytes
      rw [show act T (.read1 true) s = act1 T s (.read1 true) from rfl, hi.read1_eq hpc hne]
      refine ⟨{ hi with
        open2 := hi.open2
        requester := hr
        buff1 := Record.bytes_length _
        carries2 := ?_
        got1 := got_concat hi.got1 }, Nat.add_lt_add_right hrank _⟩
      simpa only [Handler.receive, List.length_append, List.length_singleton] using
        hi.carries2.read hne (hi.requester.of_waiting hpc).2
  | log1 =>
    obtain ⟨hr, hrank⟩ := hi.requester.writeLog hg
    exact ⟨hi.local1 hr rfl rfl rfl, Nat.add_lt_add_right hrank _⟩
  | closeRead1 => exact absurd hg hi.requester.not_closing.1
  | closeWrite1 => exact absurd hg hi.requester.not_closing.2.1
  | head2 =>
    obtain ⟨hr, hrank⟩ := hi.replier.checkHead hg hi.flag
    exact ⟨hi.local2 hr rfl rfl rfl, Nat.add_lt_add_left hrank _⟩
  | call2 =>
    obtain ⟨hr, hrank⟩ := hi.replier.call hg
    simp only [act, act2, hi.open1.1, if_true]
    exact ⟨hi.local2 hr rfl rfl rfl, Nat.add_lt_add_left hrank _⟩
  | read2 ok =>
    cases ok with
    | false => exact absurd hg.2 (by simp [hi.flag])
    | true =>
      have hpc : s.thread2.pc = .waiting := hg.1
      have hne := hi.nonempty1 hg.2
      obtain ⟨hr, hrank⟩ := hi.replier.receive hpc (T.t1 s.thread2.got.length).bytes
      rw [show act T (.read2 true) s = act2 T s (.read2 true) from rfl, hi.read2_eq hpc hne]
      refine ⟨{ hi with
        open1 := hi.open1
        replier := hr
        buff2 := Record.bytes_length _
        carries1 := ?_
        got2 := got_concat hi.got2 }, Nat.add_lt_add_left hrank _⟩
      simpa only [Handler.receive, List.length_append, List.length_singleton] using
        hi.carries1.read hne (hi.replier.of_waiting hpc).2
  | log2 =>
    obtain ⟨hr, hrank⟩ := hi.replier.writeLog hg
    exact ⟨hi.local2 hr rfl rfl rfl, Nat.add_lt_add_left hrank _⟩
  | write2 past =>
    have hpc : s.thread2.pc = .send := hg
    obtain ⟨hr, hrank⟩ := hi.replier.send hpc
    have hround := (hi.replier.of_send hpc).1
    have hcarries := hi.carries2.write past
    simp only [act, act2, hi.open2.2, if_true]
    refine ⟨{ hi with open2 := hi.open2, replier := hr, carries2 := ?_ },
      Nat.add_lt_add_left hrank _⟩
    simpa only [Handler.send, ← hround, if_true] using hcarries
  | count2 =>
    obtain ⟨hr, hrank⟩ := hi.replier.count hg
    exact ⟨hi.local2 hr rfl rfl rfl, Nat.add_lt_add_left hrank _⟩
  | closeRead2 => exact absurd hg hi.replier.not_closing.1
  | closeWrite2 => exact absurd hg hi.replier.not_closing.2.1

end Inv

theorem inv_of_reachable (hs : (quiet T).Reachable s) : Inv T s := by
  refine hs.invariant ?_ fun s a _ hi hg => (hi.step hg.1 hg.2).1
  rintro s ⟨buff1, buff2, h1, h2, rfl⟩
  exact Inv.start T h1 h2

/-! ## Progress -/

/-- `thread1_handler` can go on unless it is done or waits at an empty pipe. -/
theorem Inv.enabled1 (hi : Inv T s) (hdone : s.thread1.pc ≠ .done)
    (hwait : s.thread1.pc = .waiting → s.fd2.bytes ≠ []) : ∃ a, (quiet T).guard s a := by
  have hloop := hi.requester.inLoop hdone
  generalize hpc : s.thread1.pc = pc at hloop
  cases hloop with
  | head => exact ⟨.head1, hpc, trivial⟩
  | send => exact ⟨.write1 fun _ => 0, hpc, trivial⟩
  | count => exact ⟨.count1, hpc, trivial⟩
  | call => exact ⟨.call1, hpc, trivial⟩
  | waiting => exact ⟨.read1 true, ⟨hpc, Or.inl (hwait hpc)⟩, trivial⟩
  | log => exact ⟨.log1, hpc, trivial⟩

theorem Inv.enabled2 (hi : Inv T s) (hdone : s.thread2.pc ≠ .done)
    (hwait : s.thread2.pc = .waiting → s.fd1.bytes ≠ []) : ∃ a, (quiet T).guard s a := by
  have hloop := hi.replier.inLoop hdone
  generalize hpc : s.thread2.pc = pc at hloop
  cases hloop with
  | head => exact ⟨.head2, hpc, trivial⟩
  | call => exact ⟨.call2, hpc, trivial⟩
  | waiting => exact ⟨.read2 true, ⟨hpc, Or.inl (hwait hpc)⟩, trivial⟩
  | log => exact ⟨.log2, hpc, trivial⟩
  | send => exact ⟨.write2 fun _ => 0, hpc, trivial⟩
  | count => exact ⟨.count2, hpc, trivial⟩

/-- At an empty pipe at least as many records have been read as writes were made. -/
theorem Carries.le_of_nil {n w r : ℕ} {t : ℕ → Record} {p : Pipe} (h : Carries n t w r p)
    (hnil : p.bytes = []) (hn : 0 < n) : w ≤ r := by
  rw [h.count_eq_of_nil hnil]
  exact Nat.le_mul_of_pos_left w hn

/-- Where both handlers are done or wait at an empty pipe, both are done. -/
theorem Inv.done_of_waiting (hi : Inv T s)
    (h1 : s.thread1.pc = .done ∨ s.thread1.pc = .waiting ∧ s.fd2.bytes = [])
    (h2 : s.thread2.pc = .done ∨ s.thread2.pc = .waiting ∧ s.fd1.bytes = []) :
    s.thread1.pc = .done ∧ s.thread2.pc = .done := by
  rcases h1 with h1 | ⟨h1, hnil2⟩ <;> rcases h2 with h2 | ⟨h2, hnil1⟩
  · exact ⟨h1, h2⟩
  · have hr1 := hi.requester.of_done h1
    have hr2 := hi.replier.of_waiting h2
    have hle := hi.carries1.le_of_nil hnil1 (by omega)
    omega
  · have hr1 := hi.requester.of_waiting h1
    have hr2 := hi.replier.of_done h2
    have hle := hi.carries2.le_of_nil hnil2 (by omega)
    omega
  · -- each handler has read at least as often as the other one has written
    have hr1 := hi.requester.of_waiting h1
    have hr2 := hi.replier.of_waiting h2
    have hle1 := hi.carries1.le_of_nil hnil1 (by omega)
    have hle2 := hi.carries2.le_of_nil hnil2 (by omega)
    omega

theorem not_stuck (hs : (quiet T).Reachable s)
    (h : ¬ (s.thread1.pc = .done ∧ s.thread2.pc = .done)) : ¬ (quiet T).Stuck s := by
  intro hstuck
  have hnone : ¬ ∃ a, (quiet T).guard s a := fun ⟨a, ha⟩ => hstuck a ha
  have hi := inv_of_reachable hs
  refine h (hi.done_of_waiting ?_ ?_)
  · by_contra hrun
    rw [not_or, not_and] at hrun
    exact hnone (hi.enabled1 hrun.1 hrun.2)
  · by_contra hrun
    rw [not_or, not_and] at hrun
    exact hnone (hi.enabled2 hrun.1 hrun.2)

/-- No run is longer than the two handlers have steps to make. -/
theorem run_length_le (hs : (quiet T).Reachable s) {as : List Action} {s' : State}
    (hr : (quiet T).Run s as s') : as.length ≤ rank T s := by
  have hlen := hr.length_add_le (V := rank T)
    (fun s a hs hg => ((inv_of_reachable hs).step hg.1 hg.2).2) hs
  omega

/-- Delivery over the pipes: the `k`-th read of each handler returns the 48 bytes of
    the `k`-th record of the other one's table; the handlers never block both, and
    every run comes to an end, with all records read. -/
theorem delivery (T : Tables) {s : State} (hs : (quiet T).Reachable s) :
    (∀ k b, s.thread2.got[k]? = some b → b = (T.t1 k).bytes ∧ b.length = 48) ∧
    (∀ k b, s.thread1.got[k]? = some b → b = (T.t2 k).bytes ∧ b.length = 48) ∧
    (¬ (s.thread1.pc = .done ∧ s.thread2.pc = .done) → ¬ (quiet T).Stuck s) ∧
    (∀ as s', (quiet T).Run s as s' → as.length ≤ rank T s) ∧
    (s.thread1.pc = .done → s.thread1.got.length = T.n) ∧
    (s.thread2.pc = .done → s.thread2.got.length = T.n) := by
  have hi := inv_of_reachable hs
  have hget : ∀ {got : List (List UInt8)} {t : ℕ → Record},
      got = (List.range got.length).map (fun k => (t k).bytes) →
      ∀ k b, got[k]? = some b → b = (t k).bytes ∧ b.length = 48 := by
    intro got t hgot k b hb
    obtain ⟨hk, hkb⟩ := List.getElem?_eq_some_iff.mp hb
    have hbytes : b = (t k).bytes := by
      rw [hgot, List.getElem?_map, List.getElem?_range hk] at hb
      exact (Option.some.inj hb).symm
    exact ⟨hbytes, hbytes ▸ Record.bytes_length (t k)⟩
  exact ⟨hget hi.got2, hget hi.got1, not_stuck hs, fun as s' hr => run_length_le hs hr,
    fun h => (hi.requester.of_done h).2, fun h => (hi.replier.of_done h).2⟩

def firstRead : List Action := [.head1, .write1 fun _ => 0, .head2, .call2, .read2 true]

theorem delivery_first_read :
    ∃ s, (quiet ⟨10, fun _ => default, fun _ => default⟩).exec firstRead
        (start (List.replicate recordSize 0) (List.replicate recordSize 0)) = some s ∧
      s.thread2.got.length = 1 ∧
      (∀ b, s.thread2.got[0]? = some b → b = (default : Record).bytes ∧ b.length = 48) ∧
      ¬ (quiet ⟨10, fun _ => default, fun _ => default⟩).Stuck s := by
  have hinit : (quiet ⟨10, fun _ => default, fun _ => default⟩).Reachable
      (start (List.replicate recordSize 0) (List.replicate recordSize 0)) :=
    .init ⟨_, _, List.length_replicate, List.length_replicate, rfl⟩
  refine ⟨_, rfl, rfl, ?_⟩
  have hall := delivery ⟨10, fun _ => default, fun _ => default⟩
    (hinit.run (Program.run_of_exec _ firstRead _ rfl))
  exact ⟨hall.1 0, hall.2.2.1 (by decide)⟩

end Apes.Pipes
