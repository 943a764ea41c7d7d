import Apes.Ipc.Handler

/-!
# Rounds without a signal

A handler that sees no signal makes its `n` rounds and leaves. A requester sends,
counts, receives and logs in each round; a replier receives, logs, sends and counts.
For both the lemmas say what each operation does to the counters, to the log and to
the number of steps that are left.
-/

namespace Apes.Handler

open Apes

variable {β : Type}

/-- The counters of a handler that sends first. -/
def RequestRounds (n : ℕ) (h : Handler β) : Prop :=
  match h.pc with
  | .head => h.sent = h.i ∧ h.got.length = h.i ∧ h.i ≤ n
  | .send => h.sent = h.i ∧ h.got.length = h.i ∧ h.i < n
  | .count => h.sent = h.i + 1 ∧ h.got.length = h.i ∧ h.i < n
  | .call | .waiting => h.sent = h.i ∧ h.got.length + 1 = h.i ∧ h.i ≤ n
  | .log => h.sent = h.i ∧ h.got.length = h.i ∧ h.i ≤ n
  | .done => h.sent = h.i ∧ h.got.length = h.i ∧ h.i = n
  | .close | .closeNext | .killed => False

/-- The counters of a handler that receives first. -/
def ReplyRounds (n : ℕ) (h : Handler β) : Prop :=
  match h.pc with
  | .head => h.sent = h.i ∧ h.got.length = h.i ∧ h.i ≤ n
  | .call | .waiting => h.sent = h.i ∧ h.got.length = h.i ∧ h.i < n
  | .log | .send => h.sent = h.i ∧ h.got.length = h.i + 1 ∧ h.i < n
  | .count => h.sent = h.i + 1 ∧ h.got.length = h.i + 1 ∧ h.i < n
  | .done => h.sent = h.i ∧ h.got.length = h.i ∧ h.i = n
  | .close | .closeNext | .killed => False

/-- What has been logged is what has been received, up to the record that is
    received and not logged yet. -/
def LogsGot (h : Handler β) : Prop :=
  h.got = if h.pc = .log then h.logged ++ [h.buff] else h.logged

/-- How many steps a requester has still to make. -/
def requestRank (n : ℕ) (h : Handler β) : ℕ :=
  match h.pc with
  | .head => 6 * (n - h.i) + 1
  | .send => 6 * (n - h.i)
  | .count => 6 * (n - h.i) - 1
  | .call => 6 * (n - h.i) + 4
  | .waiting => 6 * (n - h.i) + 3
  | .log => 6 * (n - h.i) + 2
  | .close | .closeNext | .killed | .done => 0

/-- How many steps a replier has still to make. -/
def replyRank (n : ℕ) (h : Handler β) : ℕ :=
  match h.pc with
  | .head => 6 * (n - h.i) + 1
  | .call => 6 * (n - h.i)
  | .waiting => 6 * (n - h.i) - 1
  | .log => 6 * (n - h.i) - 2
  | .send => 6 * (n - h.i) - 3
  | .count => 6 * (n - h.i) - 4
  | .close | .closeNext | .killed | .done => 0

structure Requester (n : ℕ) (h : Handler β) : Prop where
  rounds : h.RequestRounds n
  logs : h.LogsGot

structure Replier (n : ℕ) (h : Handler β) : Prop where
  rounds : h.ReplyRounds n
  logs : h.LogsGot

variable {n : ℕ} {h : Handler β}

/-- The places inside the loop. -/
inductive InLoop : Pc → Prop
  | head : InLoop .head
  | send : InLoop .send
  | count : InLoop .count
  | call : InLoop .call
  | waiting : InLoop .waiting
  | log : InLoop .log

/-- A handler that is neither done nor on its way out is in its loop. -/
theorem inLoop_of_ne (h : Handler β) (hclosing : h.pc ≠ .close ∧ h.pc ≠ .closeNext ∧ h.pc ≠ .killed)
    (hdone : h.pc ≠ .done) : InLoop h.pc := by
  obtain ⟨hclose, hcloseNext, hkilled⟩ := hclosing
  cases hpc : h.pc with
  | head => exact .head
  | send => exact .send
  | count => exact .count
  | call => exact .call
  | waiting => exact .waiting
  | log => exact .log
  | close => exact absurd hpc hclose
  | closeNext => exact absurd hpc hcloseNext
  | killed => exact absurd hpc hkilled
  | done => exact absurd hpc hdone

namespace LogsGot

theorem checkHead (hl : h.LogsGot) (hpc : h.pc = .head) (flag : Bool) (n : ℕ) (next : Pc)
    (hnext : next ≠ .log) : (h.checkHead flag n next).LogsGot := by
  rw [LogsGot, if_neg (by simp [hpc])] at hl
  rw [LogsGot, if_neg, Handler.checkHead, hl]
  rw [Handler.checkHead]
  split
  · simp
  · split <;> simp [hnext]

/-- Between a log entry and the next receive nothing changes. -/
theorem step (h' : Handler β) (hl : h.LogsGot) (hpc : h.pc ≠ .log) (hpc' : h'.pc ≠ .log)
    (hgot : h'.got = h.got) (hlogged : h'.logged = h.logged) : h'.LogsGot := by
  rw [LogsGot, if_neg hpc] at hl
  rw [LogsGot, if_neg hpc', hgot, hlogged, hl]

theorem receive (hl : h.LogsGot) (hpc : h.pc ≠ .log) (b : β) : (h.receive b).LogsGot := by
  rw [LogsGot, if_neg hpc] at hl
  simp [LogsGot, Handler.receive, hl]

theorem writeLog (hl : h.LogsGot) (hpc : h.pc = .log) {next : Pc} (hnext : next ≠ .log) :
    (h.writeLog next).LogsGot := by
  rw [LogsGot, if_pos hpc] at hl
  simp [LogsGot, Handler.writeLog, hnext, hl]

theorem got_of_done (hl : h.LogsGot) (hpc : h.pc = .done) : h.got = h.logged := by
  rwa [LogsGot, if_neg (by simp [hpc])] at hl

theorem sublist (hl : h.LogsGot) : h.logged.Sublist h.got := by
  rw [hl]
  split
  · exact List.sublist_append_left _ _
  · exact List.Sublist.refl _

theorem length_le (hl : h.LogsGot) : h.logged.length ≤ h.got.length := hl.sublist.length_le

end LogsGot

/-! ## The requester -/

namespace Requester

theorem start (n : ℕ) (buff : β) : (start buff).Requester n :=
  ⟨⟨rfl, rfl, Nat.zero_le n⟩, rfl⟩

theorem checkHead (hr : h.Requester n) (hpc : h.pc = .head) {flag : Bool} (hf : flag = false) :
    (h.checkHead flag n .send).Requester n ∧
      (h.checkHead flag n .send).requestRank n < h.requestRank n := by
  subst hf
  have hlogs := hr.logs.checkHead hpc false n .send (by decide)
  obtain ⟨hs, hg, hi⟩ : h.sent = h.i ∧ h.got.length = h.i ∧ h.i ≤ n := by
    simpa only [RequestRounds, hpc] using hr.rounds
  by_cases hn : h.i = n
  · refine ⟨⟨?_, hlogs⟩, ?_⟩
    · simp [RequestRounds, Handler.checkHead, hn, hs, hg]
    · simp [requestRank, Handler.checkHead, hn, hpc]
  · have hlt : h.i < n := lt_of_le_of_ne hi hn
    refine ⟨⟨?_, hlogs⟩, ?_⟩
    · simp [RequestRounds, Handler.checkHead, hn, hs, hg, hlt]
    · simp [requestRank, Handler.checkHead, hn, hpc]

theorem send (hr : h.Requester n) (hpc : h.pc = .send) :
    (h.send true .count).Requester n ∧
      (h.send true .count).requestRank n < h.requestRank n := by
  have hlogs := hr.logs.step (h.send true .count) (by simp [hpc])
    (by simp [Handler.send]) rfl rfl
  have hrounds := hr.rounds
  simp only [RequestRounds, hpc] at hrounds
  refine ⟨⟨?_, hlogs⟩, ?_⟩
  · simpa [RequestRounds, Handler.send] using hrounds
  · simp only [requestRank, Handler.send, hpc]
    omega

theorem count (hr : h.Requester n) (hpc : h.pc = .count) :
    (h.count .call).Requester n ∧ (h.count .call).requestRank n < h.requestRank n := by
  have hlogs := hr.logs.step (h.count .call) (by simp [hpc]) (by simp [Handler.count])
    rfl rfl
  have hrounds := hr.rounds
  simp only [RequestRounds, hpc] at hrounds
  obtain ⟨hs, hg, hi⟩ := hrounds
  refine ⟨⟨⟨hs, congrArg (· + 1) hg, hi⟩, hlogs⟩, ?_⟩
  simp only [requestRank, Handler.count, hpc]
  omega

theorem call (hr : h.Requester n) (hpc : h.pc = .call) :
    (h.goto .waiting).Requester n ∧ (h.goto .waiting).requestRank n < h.requestRank n := by
  have hlogs := hr.logs.step (h.goto .waiting) (by simp [hpc]) (by simp [Handler.goto])
    rfl rfl
  have hrounds := hr.rounds
  simp only [RequestRounds, hpc] at hrounds
  refine ⟨⟨hrounds, hlogs⟩, ?_⟩
  simp [requestRank, Handler.goto, hpc]

theorem receive (hr : h.Requester n) (hpc : h.pc = .waiting) (b : β) :
    (h.receive b).Requester n ∧ (h.receive b).requestRank n < h.requestRank n := by
  have hrounds := hr.rounds
  simp only [RequestRounds, hpc] at hrounds
  refine ⟨⟨?_, hr.logs.receive (by simp [hpc]) b⟩, ?_⟩
  · simpa [RequestRounds, Handler.receive] using hrounds
  · simp [requestRank, Handler.receive, hpc]

theorem writeLog (hr : h.Requester n) (hpc : h.pc = .log) :
    (h.writeLog .head).Requester n ∧ (h.writeLog .head).requestRank n < h.requestRank n := by
  have hrounds := hr.rounds
  simp only [RequestRounds, hpc] at hrounds
  refine ⟨⟨hrounds, hr.logs.writeLog hpc (by decide)⟩, ?_⟩
  simp [requestRank, Handler.writeLog, hpc]

/-- The counters, wherever the handler is: at most one request is not answered. -/
theorem bounds (hr : h.Requester n) :
    h.sent ≤ n ∧ h.i ≤ h.sent ∧ h.sent ≤ h.i + 1 ∧ h.got.length ≤ h.i ∧
      h.i ≤ h.got.length + 1 ∧ h.got.length ≤ h.sent ∧ h.sent ≤ h.got.length + 1 := by
  have hrounds := hr.rounds
  unfold RequestRounds at hrounds
  split at hrounds <;> first | omega | exact hrounds.elim

theorem of_send (hr : h.Requester n) (hpc : h.pc = .send) :
    h.sent = h.i ∧ h.got.length = h.sent := by
  have hrounds := hr.rounds
  simp only [RequestRounds, hpc] at hrounds
  omega

theorem of_waiting (hr : h.Requester n) (hpc : h.pc = .waiting) :
    h.sent = h.got.length + 1 ∧ h.got.length < n := by
  have hrounds := hr.rounds
  simp only [RequestRounds, hpc] at hrounds
  omega

theorem of_done (hr : h.Requester n) (hpc : h.pc = .done) :
    h.sent = n ∧ h.got.length = n := by
  have hrounds := hr.rounds
  simp only [RequestRounds, hpc] at hrounds
  omega

theorem not_closing (hr : h.Requester n) :
    h.pc ≠ .close ∧ h.pc ≠ .closeNext ∧ h.pc ≠ .killed := by
  have hrounds := hr.rounds
  refine ⟨fun hpc => ?_, fun hpc => ?_, fun hpc => ?_⟩ <;>
    simp only [RequestRounds, hpc] at hrounds

theorem inLoop (hr : h.Requester n) (hdone : h.pc ≠ .done) : InLoop h.pc :=
  h.inLoop_of_ne hr.not_closing hdone

/-- In the end a handler has logged the records that it was sent in its rounds. -/
theorem logged_of_done (hr : h.Requester n) (hpc : h.pc = .done) {t : ℕ → β}
    (hgot : h.got = (List.range h.got.length).map t) : h.logged = (List.range n).map t := by
  rw [(hr.of_done hpc).2, hr.logs.got_of_done hpc] at hgot
  exact hgot

end Requester

/-! ## The replier -/

namespace Replier

theorem start (n : ℕ) (buff : β) : (start buff).Replier n :=
  ⟨⟨rfl, rfl, Nat.zero_le n⟩, rfl⟩

theorem checkHead (hr : h.Replier n) (hpc : h.pc = .head) {flag : Bool} (hf : flag = false) :
    (h.checkHead flag n .call).Replier n ∧
      (h.checkHead flag n .call).replyRank n < h.replyRank n := by
  subst hf
  have hlogs := hr.logs.checkHead hpc false n .call (by decide)
  obtain ⟨hs, hg, hi⟩ : h.sent = h.i ∧ h.got.length = h.i ∧ h.i ≤ n := by
    simpa only [ReplyRounds, hpc] using hr.rounds
  by_cases hn : h.i = n
  · refine ⟨⟨?_, hlogs⟩, ?_⟩
    · simp [ReplyRounds, Handler.checkHead, hn, hs, hg]
    · simp [replyRank, Handler.checkHead, hn, hpc]
  · have hlt : h.i < n := lt_of_le_of_ne hi hn
    refine ⟨⟨?_, hlogs⟩, ?_⟩
    · simp [ReplyRounds, Handler.checkHead, hn, hs, hg, hlt]
    · simp [replyRank, Handler.checkHead, hn, hpc]

theorem call (hr : h.Replier n) (hpc : h.pc = .call) :
    (h.goto .waiting).Replier n ∧ (h.goto .waiting).replyRank n < h.replyRank n := by
  have hlogs := hr.logs.step (h.goto .waiting) (by simp [hpc]) (by simp [Handler.goto])
    rfl rfl
  have hrounds := hr.rounds
  simp only [ReplyRounds, hpc] at hrounds
  refine ⟨⟨hrounds, hlogs⟩, ?_⟩
  simp only [replyRank, Handler.goto, hpc]
  omega

theorem receive (hr : h.Replier n) (hpc : h.pc = .waiting) (b : β) :
    (h.receive b).Replier n ∧ (h.receive b).replyRank n < h.replyRank n := by
  have hrounds := hr.rounds
  simp only [ReplyRounds, hpc] at hrounds
  refine ⟨⟨?_, hr.logs.receive (by simp [hpc]) b⟩, ?_⟩
  · simpa [ReplyRounds, Handler.receive] using hrounds
  · simp only [replyRank, Handler.receive, hpc]
    omega

theorem writeLog (hr : h.Replier n) (hpc : h.pc = .log) :
    (h.writeLog .send).Replier n ∧ (h.writeLog .send).replyRank n < h.replyRank n := by
  have hrounds := hr.rounds
  simp only [ReplyRounds, hpc] at hrounds
  refine ⟨⟨hrounds, hr.logs.writeLog hpc (by decide)⟩, ?_⟩
  simp only [replyRank, Handler.writeLog, hpc]
  omega

theorem send (hr : h.Replier n) (hpc : h.pc = .send) :
    (h.send true .count).Replier n ∧ (h.send true .count).replyRank n < h.replyRank n := by
  have hlogs := hr.logs.step (h.send true .count) (by simp [hpc])
    (by simp [Handler.send]) rfl rfl
  have hrounds := hr.rounds
  simp only [ReplyRounds, hpc] at hrounds
  refine ⟨⟨?_, hlogs⟩, ?_⟩
  · simpa [ReplyRounds, Handler.send] using hrounds
  · simp only [replyRank, Handler.send, hpc]
    omega

theorem count (hr : h.Replier n) (hpc : h.pc = .count) :
    (h.count .head).Replier n ∧ (h.count .head).replyRank n < h.replyRank n := by
  have hlogs := hr.logs.step (h.count .head) (by simp [hpc]) (by simp [Handler.count])
    rfl rfl
  have hrounds := hr.rounds
  simp only [ReplyRounds, hpc] at hrounds
  refine ⟨⟨hrounds, hlogs⟩, ?_⟩
  simp only [replyRank, Handler.count, hpc]
  omega

/-- The counters, wherever the handler is: at most one request that was received is not
    answered. -/
theorem bounds (hr : h.Replier n) :
    h.sent ≤ n ∧ h.i ≤ h.sent ∧ h.sent ≤ h.i + 1 ∧ h.sent ≤ h.got.length ∧
      h.got.length ≤ h.sent + 1 := by
  have hrounds := hr.rounds
  unfold ReplyRounds at hrounds
  split at hrounds <;> first | omega | exact hrounds.elim

theorem of_send (hr : h.Replier n) (hpc : h.pc = .send) :
    h.sent = h.i ∧ h.got.length = h.sent + 1 := by
  have hrounds := hr.rounds
  simp only [ReplyRounds, hpc] at hrounds
  omega

theorem of_waiting (hr : h.Replier n) (hpc : h.pc = .waiting) :
    h.sent = h.got.length ∧ h.got.length < n := by
  have hrounds := hr.rounds
  simp only [ReplyRounds, hpc] at hrounds
  omega

theorem of_done (hr : h.Replier n) (hpc : h.pc = .done) :
    h.sent = n ∧ h.got.length = n := by
  have hrounds := hr.rounds
  simp only [ReplyRounds, hpc] at hrounds
  omega

theorem not_closing (hr : h.Replier n) :
    h.pc ≠ .close ∧ h.pc ≠ .closeNext ∧ h.pc ≠ .killed := by
  have hrounds := hr.rounds
  refine ⟨fun hpc => ?_, fun hpc => ?_, fun hpc => ?_⟩ <;>
    simp only [ReplyRounds, hpc] at hrounds

theorem inLoop (hr : h.Replier n) (hdone : h.pc ≠ .done) : InLoop h.pc :=
  h.inLoop_of_ne hr.not_closing hdone

/-- In the end a handler has logged the records that it was sent in its rounds. -/
theorem logged_of_done (hr : h.Replier n) (hpc : h.pc = .done) {t : ℕ → β}
    (hgot : h.got = (List.range h.got.length).map t) : h.logged = (List.range n).map t := by
  rw [(hr.of_done hpc).2, hr.logs.got_of_done hpc] at hgot
  exact hgot

end Replier

end Apes.Handler
