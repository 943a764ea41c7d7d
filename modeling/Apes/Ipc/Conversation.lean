import Apes.Ipc.Commands
import Apes.Ipc.QueuesLockstep
import Apes.Ipc.SocketsFraming
import Mathlib.Tactic.IntervalCases

/-!
# The conversations of `queues.c` and `sockets.c`

In a complete run each handler logs the ten records of the other one, in both programs.
What `thread1_handler` logs is the same in both. What `thread2_handler` logs is not:
`thread1_handler` of `sockets.c` stores the commands of the records 8 and 9 in the records
6 and 7.
-/

namespace Apes

open Pc

variable {T : Tables}

/-! ## Complete runs -/

namespace Queues

variable {s : State}

/-- Both handlers have exited after their last round. -/
structure Complete (T : Tables) (s : State) : Prop where
  reachable : (quiet T).Reachable s
  done1 : s.thread1.pc = .done
  done2 : s.thread2.pc = .done

/-- The entries that a handler has made in its log. -/
def entries (h : Handler Record) : List Entry := h.logged.map fun r => entry r.bytes

theorem Complete.entries1 (h : Complete T s) :
    entries s.thread1 = (List.range T.n).map fun k => entry (T.t2 k).bytes := by
  have hi := inv_of_reachable h.reachable
  have hlogged := hi.requester.logged_of_done h.done1 hi.fifo2.got_eq
  rw [entries, hlogged, List.map_map]
  rfl

theorem Complete.entries2 (h : Complete T s) :
    entries s.thread2 = (List.range T.n).map fun k => entry (T.t1 k).bytes := by
  have hi := inv_of_reachable h.reachable
  have hlogged := hi.replier.logged_of_done h.done2 hi.fifo1.got_eq
  rw [entries, hlogged, List.map_map]
  rfl

end Queues

namespace Sockets

variable {s : State}

structure Complete (T : Tables) (s : State) : Prop where
  reachable : (whole T).Reachable s
  done1 : s.thread1.pc = .done
  done2 : s.thread2.pc = .done

def entries (h : Handler (List UInt8)) : List Entry := h.logged.map entry

/-- `thread1_handler` exits behind its last round. -/
theorem rounds_of_done (hs : (whole T).Reachable s) : s.thread1.pc = .done → s.thread1.i = T.n := by
  refine hs.invariant (I := fun s => s.thread1.pc = .done → s.thread1.i = T.n) ?_ ?_
  · rintro s ⟨buff1, buff2, -, -, rfl⟩ hpc
    cases hpc
  · intro s a hs hi hg hpc
    have hflag := (inv_of_reachable hs).flag
    cases a with
    | head1 =>
      by_cases hn : s.thread1.i = T.n
      · exact hn
      · simp [whole, Program.restrict, quiet, program, act, act1, checkHead, hflag, hn] at hpc
    | send1 | call1 | recv1 | interrupt1 | count1 | log1 => cases hpc
    | _ => exact hi hpc

theorem Complete.entries1 (h : Complete T s) :
    entries s.thread1 = (List.range T.n).map fun k => entry (T.t2 k).bytes := by
  have hi := inv_of_reachable h.reachable
  have hcounts := hi.counts1
  have hlogs := hi.logs1
  have hgot := hi.got1
  simp only [CountsFirst, h.done1] at hcounts
  rw [LogsLater, h.done1, if_neg (by decide)] at hlogs
  rw [hcounts.2, rounds_of_done h.reachable h.done1, hlogs] at hgot
  rw [entries, hgot, List.map_map]
  rfl

theorem Complete.entries2 (h : Complete T s) :
    entries s.thread2 = (List.range T.n).map fun k => entry (T.t1 k).bytes := by
  have hi := inv_of_reachable h.reachable
  have hlogged := hi.replier.logged_of_done h.done2 hi.got2
  rw [entries, hlogged, List.map_map]
  rfl

end Sockets

/-! ## The two conversations -/

/-- Both handlers log the same in the two programs. -/
def SameConversation (s : Queues.State) (s' : Sockets.State) : Prop :=
  Queues.entries s.thread1 = Sockets.entries s'.thread1 ∧
    Queues.entries s.thread2 = Sockets.entries s'.thread2

/-- The entries that `thread2_handler` makes agree. The records 8 and 9 of `sockets.c` keep
    the command that the memory held. -/
def Agrees (memory : ℕ → Record) (k : ℕ) : Prop :=
  k < 6 ∨ k = 8 ∧ (memory 8).command = Led.damaged.code ∨
    k = 9 ∧ (memory 9).command = Led.outOfRange.code

/-- The entry of a record of `thread2_handler` does not depend on what the memory held. -/
theorem entry_thread2 {k : ℕ} (hk : k < 10) (r r' : Record) :
    entry (fillRecord thread2Texts allCommands r k).bytes =
      entry (fillRecord thread2Texts allCommands r' k).bytes := by
  have hlen : k < thread2Texts.length := hk
  have hcommand : ∀ c c', storeCommands allCommands k c = storeCommands allCommands k c' := by
    intro c c'
    interval_cases k <;> rfl
  have htext := List.getElem?_eq_getElem hlen
  have hfit := thread2Texts_fit _ (List.getElem_mem hlen)
  rw [entry_fillRecord htext hfit, entry_fillRecord htext hfit, hcommand r.command r'.command]

/-- The entries of the records of `thread1_handler` differ in the commands, from the record
    6 on. -/
theorem entry_thread1_iff {k : ℕ} (hk : k < 10) (r : Record) (memory : ℕ → Record) :
    entry (fillRecord thread1Texts allCommands r k).bytes =
      entry (fillRecord thread1Texts socketsCommands (memory k) k).bytes ↔ Agrees memory k := by
  have hlen : k < thread1Texts.length := hk
  have htext := List.getElem?_eq_getElem hlen
  have hfit := thread1Texts_fit _ (List.getElem_mem hlen)
  have hcommand : storeCommands allCommands k r.command =
      storeCommands socketsCommands k (memory k).command ↔ Agrees memory k := by
    interval_cases k <;>
      simp [storeCommands, allCommands, socketsCommands, Agrees, Led.code, eq_comm]
  have hinj : ∀ c c' : UInt32, c.toInt32 = c'.toInt32 ↔ c = c' := fun c c' =>
    ⟨fun h => by simpa using congrArg Int32.toUInt32 h, congrArg _⟩
  rw [entry_fillRecord htext hfit, entry_fillRecord htext hfit, ← hcommand]
  simp [hinj]

/-- In any two complete runs of the programs the two logs of `thread1_handler` are the same,
    and those of `thread2_handler` differ: at the records 6 and 7 always, at 8 and 9 unless
    the memory held the right command. -/
theorem conversations_differ (memory1 memory2 memory1' memory2' : ℕ → Record)
    {s : Queues.State} {s' : Sockets.State} (h : Queues.Complete (queuesTables memory1 memory2) s)
    (h' : Sockets.Complete (socketsTables memory1' memory2') s') :
    Queues.entries s.thread1 = Sockets.entries s'.thread1 ∧
      (∀ k < 10, (Queues.entries s.thread2)[k]? = (Sockets.entries s'.thread2)[k]? ↔
        Agrees memory1' k) ∧
      ¬ SameConversation s s' := by
  have hentries : ∀ k < 10, (Queues.entries s.thread2)[k]? = (Sockets.entries s'.thread2)[k]? ↔
      Agrees memory1' k := by
    intro k hk
    have hq : (List.range (queuesTables memory1 memory2).n)[k]? = some k := List.getElem?_range hk
    have hs : (List.range (socketsTables memory1' memory2').n)[k]? = some k :=
      List.getElem?_range hk
    rw [h.entries2, h'.entries2, List.getElem?_map, List.getElem?_map, hq, hs, Option.map_some,
      Option.map_some, Option.some_inj]
    exact entry_thread1_iff hk (memory1 k) memory1'
  refine ⟨?_, hentries, ?_⟩
  · rw [h.entries1, h'.entries1]
    apply List.map_congr_left
    intro k hk
    exact entry_thread2 (List.mem_range.mp hk) (memory2 k) (memory2' k)
  · intro hsame
    have hsix : Agrees memory1' 6 := (hentries 6 (by decide)).mp (by rw [hsame.2])
    rcases hsix with h6 | ⟨h6, -⟩ | ⟨h6, -⟩ <;> exact absurd h6 (by decide)

/-- The steps of `queues.c` in ten rounds. -/
def queuesRounds : List Queues.Action :=
  (List.replicate 10 [.head1, .send1 true, .count1, .head2, .call2 true, .receive2 true, .log2,
    .send2 true, .count2, .call1 true, .receive1 true, .log1]).flatten ++ [.head1, .head2]

/-- The steps of `sockets.c` in ten rounds. -/
def socketsRounds : List Sockets.Action :=
  (List.replicate 10 [.head1, .send1, .call1, .head2, .call2, .recv2 recordSize, .log2, .send2,
    .count2, .recv1 recordSize, .count1, .log1]).flatten ++ [.head1, .head2]

instance (T : Tables) (s : Sockets.State) (a : Sockets.Action) :
    Decidable ((Sockets.whole T).guard s a) :=
  inferInstanceAs (Decidable ((Sockets.quiet T).guard s a ∧ Sockets.Whole a))

/-- Memory full of zeros. -/
def zeroMemory : ℕ → Record := fun _ => default

theorem exists_complete_queues : ∃ s, Queues.Complete (queuesTables zeroMemory zeroMemory) s := by
  obtain ⟨s, hrun, h1, h2⟩ := Program.exists_run_of_exec
    (Queues.quiet (queuesTables zeroMemory zeroMemory))
    (fun s => s.thread1.pc = .done ∧ s.thread2.pc = .done) queuesRounds
    (Queues.start default default) (by decide +kernel)
  exact ⟨s, Program.Reachable.run (.init ⟨_, _, rfl⟩) hrun, h1, h2⟩

theorem exists_complete_sockets :
    ∃ s, Sockets.Complete (socketsTables zeroMemory zeroMemory) s := by
  obtain ⟨s, hrun, h1, h2⟩ := Program.exists_run_of_exec
    (Sockets.whole (socketsTables zeroMemory zeroMemory))
    (fun s => s.thread1.pc = .done ∧ s.thread2.pc = .done) socketsRounds
    (Sockets.start (List.replicate recordSize 0) (List.replicate recordSize 0))
    (by decide +kernel)
  have hinit : (Sockets.whole (socketsTables zeroMemory zeroMemory)).Reachable
      (Sockets.start (List.replicate recordSize 0) (List.replicate recordSize 0)) :=
    .init ⟨_, _, List.length_replicate, List.length_replicate, rfl⟩
  exact ⟨s, hinit.run hrun, h1, h2⟩

theorem conversations_differ_zeroMemory :
    ∃ s s', Queues.entries s.thread1 = Sockets.entries s'.thread1 ∧
      (∀ k < 10, (Queues.entries s.thread2)[k]? = (Sockets.entries s'.thread2)[k]? ↔
        Agrees zeroMemory k) ∧
      ¬ SameConversation s s' := by
  obtain ⟨s, hs⟩ := exists_complete_queues
  obtain ⟨s', hs'⟩ := exists_complete_sockets
  exact ⟨s, s', conversations_differ zeroMemory zeroMemory zeroMemory zeroMemory hs hs'⟩

/-- The record 6 carries the command `SAFE` in `queues.c` and `DAMAGED` in `sockets.c`. -/
theorem sameConversation_fails :
    ¬ ∀ s s', Queues.Complete (queuesTables zeroMemory zeroMemory) s →
      Sockets.Complete (socketsTables zeroMemory zeroMemory) s' → SameConversation s s' := by
  intro hall
  obtain ⟨s, hs⟩ := exists_complete_queues
  obtain ⟨s', hs'⟩ := exists_complete_sockets
  have hsame := congrArg (fun l => l[6]?.map Entry.command) (hall s s' hs hs').2
  rw [hs.entries2, hs'.entries2] at hsame
  exact absurd hsame (by decide +kernel)

end Apes
