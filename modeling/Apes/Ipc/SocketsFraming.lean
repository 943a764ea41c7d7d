import Apes.Ipc.PipesDelivery
import Apes.Ipc.Sockets

/-!
# Records on the streams of `sockets.c`

The streams carry whole records one after the other. Both logs hold the records of the
tables as long as every `recv` returns a whole record; a shorter one leaves the rest of
the record in the stream and the rest of the buffer as it was.
-/

namespace Apes.Sockets

open Apes Handler

variable {T : Tables} {s : State} {a : Action} {t : ℕ → Record} {sent r : ℕ}
  {stream : List UInt8}

/-! ## What a stream carries -/

/-- A stream into which `sent` records have gone, and `r` out of it. -/
def Carried (t : ℕ → Record) (sent r : ℕ) (stream : List UInt8) : Prop :=
  ∃ m, sent = r + m ∧ stream = Pipes.encode t r m

namespace Carried

theorem empty (t : ℕ → Record) : Carried t 0 0 [] := ⟨0, rfl, rfl⟩

theorem send (h : Carried t sent r stream) : Carried t (sent + 1) r (stream ++ (t sent).bytes) := by
  obtain ⟨m, rfl, rfl⟩ := h
  refine ⟨m + 1, rfl, ?_⟩
  rw [Pipes.encode, Pipes.encode, List.range'_1_concat, List.flatMap_append, List.flatMap_singleton]

/-- A stream that is not empty starts with the next record. -/
theorem exists_eq (h : Carried t sent r stream) (hne : stream ≠ []) :
    ∃ rest, stream = (t r).bytes ++ rest ∧ Carried t sent (r + 1) rest := by
  obtain ⟨m, rfl, rfl⟩ := h
  cases m with
  | zero => exact absurd rfl hne
  | succ m => exact ⟨_, Pipes.encode_succ t r m, m, by omega, rfl⟩

theorem recv (h : Carried t sent r stream) (hne : stream ≠ []) :
    stream.take recordSize = (t r).bytes ∧ Carried t sent (r + 1) (stream.drop recordSize) := by
  obtain ⟨rest, rfl, hrest⟩ := h.exists_eq hne
  exact ⟨List.take_left' (Record.bytes_length _), by
    rwa [List.drop_left' (Record.bytes_length _)]⟩

end Carried

theorem CanReturn.ne_nil {len : ℕ} (h : CanReturn stream len) : stream ≠ [] := by
  rintro rfl
  exact absurd (h.1.trans_le h.2.2) (lt_irrefl 0)

/-! ## The handler that counts before it logs -/

/-- The counters of `thread1_handler`. -/
def CountsFirst (h : Handler (List UInt8)) : Prop :=
  match h.pc with
  | .head | .send | .log | .done => h.sent = h.i ∧ h.got.length = h.i
  | .call | .waiting => h.sent = h.i + 1 ∧ h.got.length = h.i
  | .count => h.sent = h.i + 1 ∧ h.got.length = h.i + 1
  | .close | .closeNext | .killed => False

/-- What `thread1_handler` has logged is what it has received, up to the record that it
    counts and logs next. -/
def LogsLater (h : Handler (List UInt8)) : Prop :=
  h.got = if h.pc = .count ∨ h.pc = .log then h.logged ++ [h.buff] else h.logged

/-- A `recv` that overwrites the whole buffer. -/
theorem recvInto_eq {h : Handler (List UInt8)} {data : List UInt8} {next : Pc}
    (hlen : h.buff.length = data.length) : recvInto h data next = (h.receive data).goto next := by
  rw [recvInto, Pipes.readInto_eq_receive hlen]

/-! ## Whole records -/

/-- Every `recv` returns all the bytes that it asks for. -/
def Whole : Action → Prop
  | .recv1 len | .recv2 len => len = recordSize
  | _ => True

instance : DecidablePred Whole
  | .recv1 len | .recv2 len => inferInstanceAs (Decidable (len = recordSize))
  | .sigint | .head1 | .send1 | .call1 | .interrupt1 | .count1 | .log1 | .head2 | .call2
  | .interrupt2 | .log2 | .send2 | .count2 => .isTrue trivial

/-- The runs without a signal in which no `recv` returns less than a record. -/
def whole (T : Tables) : Program State Action := (quiet T).restrict fun _ a => Whole a

structure Inv (T : Tables) (s : State) : Prop where
  flag : s.flag = false
  counts1 : CountsFirst s.thread1
  logs1 : LogsLater s.thread1
  replier : s.thread2.Replier T.n
  buff1 : s.thread1.buff.length = recordSize
  buff2 : s.thread2.buff.length = recordSize
  carried1 : Carried T.t1 s.thread1.sent s.thread2.got.length s.stream1
  carried2 : Carried T.t2 s.thread2.sent s.thread1.got.length s.stream2
  got1 : s.thread1.got = (List.range s.thread1.got.length).map fun k => (T.t2 k).bytes
  got2 : s.thread2.got = (List.range s.thread2.got.length).map fun k => (T.t1 k).bytes

namespace Inv

theorem start (T : Tables) {buff1 buff2 : List UInt8} (h1 : buff1.length = recordSize)
    (h2 : buff2.length = recordSize) : Inv T (start buff1 buff2) where
  flag := rfl
  counts1 := ⟨rfl, rfl⟩
  logs1 := rfl
  replier := Replier.start T.n buff2
  buff1 := h1
  buff2 := h2
  carried1 := Carried.empty T.t1
  carried2 := Carried.empty T.t2
  got1 := rfl
  got2 := rfl

/-- A step of `thread1_handler` that touches no stream. -/
theorem local1 (hi : Inv T s) {h' : Handler (List UInt8)} (hc : CountsFirst h')
    (hl : LogsLater h') (hbuff : h'.buff = s.thread1.buff) (hsent : h'.sent = s.thread1.sent)
    (hgot : h'.got = s.thread1.got) : Inv T { s with thread1 := h' } :=
  { hi with
    counts1 := hc
    logs1 := hl
    buff1 := hbuff ▸ hi.buff1
    carried1 := by simpa only [hsent] using hi.carried1
    carried2 := by simpa only [hgot] using hi.carried2
    got1 := by simpa only [hgot] using hi.got1 }

/-- A step of `thread2_handler` that touches no stream. -/
theorem local2 (hi : Inv T s) {h' : Handler (List UInt8)} (hr : h'.Replier T.n)
    (hbuff : h'.buff = s.thread2.buff) (hsent : h'.sent = s.thread2.sent)
    (hgot : h'.got = s.thread2.got) : Inv T { s with thread2 := h' } :=
  { hi with
    replier := hr
    buff2 := hbuff ▸ hi.buff2
    carried1 := by simpa only [hgot] using hi.carried1
    carried2 := by simpa only [hsent] using hi.carried2
    got2 := by simpa only [hgot] using hi.got2 }

theorem act1 (hi : Inv T s) (hg : guard s a) (hw : Whole a) : Inv T (act1 T s a) := by
  have hcounts := hi.counts1
  have hlogs := hi.logs1
  cases a with
  | head1 =>
    have hpc : s.thread1.pc = .head := hg
    simp only [CountsFirst, hpc] at hcounts
    simp only [LogsLater, hpc, reduceCtorEq, or_self, if_false] at hlogs
    refine hi.local1 ?_ ?_ rfl rfl rfl
    · rw [hi.flag]
      by_cases hn : s.thread1.i = T.n <;> simpa [checkHead, CountsFirst, hn] using hcounts
    · rw [hi.flag]
      by_cases hn : s.thread1.i = T.n <;> simpa [checkHead, LogsLater, hn] using hlogs
  | send1 =>
    have hpc : s.thread1.pc = .send := hg
    simp only [CountsFirst, hpc] at hcounts
    simp only [LogsLater, hpc, reduceCtorEq, or_self, if_false] at hlogs
    refine { hi with
      counts1 := ⟨congrArg (· + 1) hcounts.1, hcounts.2⟩
      logs1 := hlogs
      carried1 := ?_ }
    have hsend := hi.carried1.send
    rw [hcounts.1] at hsend
    simpa [Sockets.act1, Handler.send, hcounts.1] using hsend
  | call1 =>
    have hpc : s.thread1.pc = .call := hg
    simp only [CountsFirst, hpc] at hcounts
    simp only [LogsLater, hpc, reduceCtorEq, or_self, if_false] at hlogs
    exact hi.local1 hcounts hlogs rfl rfl rfl
  | recv1 len =>
    obtain rfl : len = recordSize := hw
    obtain ⟨hpc, hcan⟩ := hg
    simp only [CountsFirst, hpc] at hcounts
    simp only [LogsLater, hpc, reduceCtorEq, or_self, if_false] at hlogs
    obtain ⟨hdata, hrest⟩ := hi.carried2.recv hcan.ne_nil
    have hrecv : recvInto s.thread1 (s.stream2.take recordSize) .count =
        (s.thread1.receive (T.t2 s.thread1.got.length).bytes).goto .count := by
      rw [hdata, recvInto_eq (by rw [hi.buff1, Record.bytes_length])]
    simp only [Sockets.act1, hrecv]
    refine { hi with
      counts1 := ⟨hcounts.1, ?_⟩
      logs1 := ?_
      buff1 := Record.bytes_length _
      carried2 := ?_
      got1 := Pipes.got_concat hi.got1 }
    · simp [Handler.goto, Handler.receive, hcounts.2]
    · simp [LogsLater, Handler.goto, Handler.receive, hlogs]
    · simpa [Handler.goto, Handler.receive] using hrest
  | interrupt1 => exact absurd hg.2 (by simp [hi.flag])
  | count1 =>
    have hpc : s.thread1.pc = .count := hg
    simp only [CountsFirst, hpc] at hcounts
    simp only [LogsLater, hpc, true_or, if_true] at hlogs
    exact hi.local1 hcounts hlogs rfl rfl rfl
  | log1 =>
    have hpc : s.thread1.pc = .log := hg
    simp only [CountsFirst, hpc] at hcounts
    simp only [LogsLater, hpc, or_true, if_true] at hlogs
    exact hi.local1 hcounts hlogs rfl rfl rfl
  | _ => exact hi

theorem act2 (hi : Inv T s) (hg : guard s a) (hw : Whole a) : Inv T (act2 T s a) := by
  cases a with
  | head2 =>
    have hhead := (hi.replier.checkHead hg hi.flag).1
    rw [hi.flag] at hhead
    refine hi.local2 ?_ rfl rfl rfl
    rw [hi.flag]
    exact hhead
  | call2 => exact hi.local2 (hi.replier.call hg).1 rfl rfl rfl
  | recv2 len =>
    obtain rfl : len = recordSize := hw
    obtain ⟨hpc, hcan⟩ := hg
    obtain ⟨hdata, hrest⟩ := hi.carried1.recv hcan.ne_nil
    have hrecv : recvInto s.thread2 (s.stream1.take recordSize) .log =
        s.thread2.receive (T.t1 s.thread2.got.length).bytes := by
      rw [hdata, recvInto_eq (by rw [hi.buff2, Record.bytes_length])]
      rfl
    simp only [Sockets.act2, hrecv]
    refine { hi with
      replier := (hi.replier.receive hpc _).1
      buff2 := Record.bytes_length _
      carried1 := ?_
      got2 := Pipes.got_concat hi.got2 }
    simpa [Handler.receive] using hrest
  | interrupt2 => exact absurd hg.2 (by simp [hi.flag])
  | log2 => exact hi.local2 (hi.replier.writeLog hg).1 rfl rfl rfl
  | send2 =>
    refine { hi with
      replier := (hi.replier.send hg).1
      carried2 := ?_ }
    have hsend := hi.carried2.send
    have hround := (hi.replier.of_send hg).1
    rw [hround] at hsend
    simpa [Sockets.act2, Handler.send, hround] using hsend
  | count2 => exact hi.local2 (hi.replier.count hg).1 rfl rfl rfl
  | _ => exact hi

theorem act (hi : Inv T s) (hg : guard s a) (hquiet : a ≠ .sigint) (hw : Whole a) :
    Inv T (act T a s) := by
  cases a with
  | sigint => exact absurd rfl hquiet
  | head1 | send1 | call1 | recv1 | interrupt1 | count1 | log1 => exact hi.act1 hg hw
  | head2 | call2 | recv2 | interrupt2 | log2 | send2 | count2 => exact hi.act2 hg hw

end Inv

theorem inv_of_reachable (hs : (whole T).Reachable s) : Inv T s := by
  refine hs.invariant ?_ fun s a _ hi hg => hi.act hg.1.1 hg.1.2 hg.2
  rintro s ⟨buff1, buff2, h1, h2, rfl⟩
  exact Inv.start T h1 h2

/-! ## What is logged -/

/-- The `k`-th entry of each log is the `k`-th record of the other handler's table. -/
structure Framed (T : Tables) (s : State) : Prop where
  log1 : ∀ k b, s.thread1.logged[k]? = some b → b = (T.t2 k).bytes
  log2 : ∀ k b, s.thread2.logged[k]? = some b → b = (T.t1 k).bytes

/-- A log is framed if what has been received is, and the last entry may be missing. -/
theorem framed_of_got {got logged : List (List UInt8)} {p : Prop} [Decidable p]
    {buff : List UInt8} (hlogs : got = if p then logged ++ [buff] else logged)
    (hgot : got = (List.range got.length).map fun k => (t k).bytes) :
    ∀ k b, logged[k]? = some b → b = (t k).bytes := by
  have hprefix : logged <+: got := by
    rw [hlogs]
    split
    · exact List.prefix_append _ _
    · exact List.prefix_refl _
  intro k b hb
  have hk : k < logged.length := (List.getElem?_eq_some_iff.mp hb).1
  have hget : got[k]? = some b := by
    rw [← hb, List.prefix_iff_getElem?.mp hprefix k hk, List.getElem?_eq_getElem hk]
  rw [hgot, List.getElem?_map, List.getElem?_range (hk.trans_le hprefix.length_le)] at hget
  exact (Option.some.inj hget).symm

theorem framed_of_whole (hs : (whole T).Reachable s) : Framed T s := by
  have hi := inv_of_reachable hs
  exact ⟨framed_of_got hi.logs1 hi.got1, framed_of_got hi.replier.logs hi.got2⟩

/-! ## A short receive -/

/-- The receive leaves bytes of the record behind, and the buffer does not happen to hold
    them already. -/
def Spoils (T : Tables) (s : State) : Action → Prop
  | .recv1 len =>
    s.thread1.buff.drop len ≠ (T.t2 s.thread1.logged.length).bytes.drop len
  | .recv2 len =>
    s.thread2.buff.drop len ≠ (T.t1 s.thread2.logged.length).bytes.drop len
  | _ => False

/-- A log whose next entry is not the next record is not framed. -/
theorem not_framed_of_concat {logged : List (List UInt8)} {buff : List UInt8} {len : ℕ}
    (hlen : len ≤ stream.length)
    (hdiff : buff.drop len ≠ (t logged.length).bytes.drop len) :
    ¬ ∀ k b, (logged ++ [stream.take len ++ buff.drop (stream.take len).length])[k]? = some b →
      b = (t k).bytes := by
  intro hall
  have htake : (stream.take len).length = len := List.length_take_of_le hlen
  have hlast := hall logged.length _ List.getElem?_concat_length
  rw [htake] at hlast
  apply hdiff
  rw [← hlast, List.drop_left' htake]

theorem not_framed_of_spoils (hg : (quiet T).guard s a) (hspoils : Spoils T s a) :
    (quiet T).CanReach (fun s' => ¬ Framed T s') (act T a s) := by
  obtain ⟨hg, -⟩ := hg
  cases a with
  | recv1 len =>
    refine ⟨[.count1, .log1], _, .cons ⟨rfl, nofun⟩ (.cons ⟨rfl, nofun⟩ (.nil _)), ?_⟩
    exact fun hf => not_framed_of_concat hg.2.2.2 hspoils hf.log1
  | recv2 len =>
    refine ⟨[.log2], _, .cons ⟨rfl, nofun⟩ (.nil _), ?_⟩
    exact fun hf => not_framed_of_concat hg.2.2.2 hspoils hf.log2
  | _ => exact hspoils.elim

/-- Both logs are framed in all runs in which every `recv` returns a whole record; where
    one leaves bytes behind that the buffer does not hold, the next entry is wrong. -/
theorem framed_when_whole (T : Tables) :
    (∀ s, (whole T).Reachable s → Framed T s) ∧
    ∀ s a, (quiet T).guard s a → Spoils T s a →
      (quiet T).CanReach (fun s' => ¬ Framed T s') (act T a s) :=
  ⟨fun _ hs => framed_of_whole hs, fun _ _ hg hspoils => not_framed_of_spoils hg hspoils⟩

/-- The first `recv` of `thread2_handler` returns one byte. -/
theorem framed_fails_one_byte :
    ¬ ∀ s, (quiet ⟨10, fun _ => default, fun _ => default⟩).Reachable s →
      Framed ⟨10, fun _ => default, fun _ => default⟩ s := by
  intro hall
  have hinit : (quiet ⟨10, fun _ => default, fun _ => default⟩).Reachable
      (start (List.replicate recordSize 1) (List.replicate recordSize 1)) :=
    .init ⟨_, _, List.length_replicate, List.length_replicate, rfl⟩
  have hreach := hinit.run
    (Program.run_of_exec _ [.head1, .send1, .head2, .call2, .recv2 1, .log2] _ rfl)
  have hlog := (hall _ hreach).log2 0 _ rfl
  exact absurd hlog (by decide)

end Apes.Sockets
