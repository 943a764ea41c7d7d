import Apes.Ipc.SharedMemoryAcks
import Apes.Lib.Parts

/-!
# `shared_memory.c`, part by part

The handlers copy a record with `strcpy` and two assignments, and `fprintf` reads it in parts
too. Nothing keeps the other handler from writing meanwhile. Where none does, the program
behaves as if each record was written and read at once; where one does, a record can be logged
that nobody has sent.

## Main definitions

- `fields`: the parts of a record that the source writes one after the other
- `fine`: the program that writes and reads the parts
- `Alone`: no part is written while the record is being read, and the other way round
-/

namespace Apes.SharedMemory

open Apes

/-- `messages`, `command` and `string_len`, in the order of the three statements. -/
def fields : Parts Record where
  n := 3
  pos := by decide
  put
    | 0, r, old => { old with messages := r.messages }
    | 1, r, old => { old with command := r.command }
    | 2, r, old => { old with stringLen := r.stringLen }
    | _ + 3, _, old => old
  Same
    | 0, r, r' => r.messages = r'.messages
    | 1, r, r' => r.command = r'.command
    | 2, r, r' => r.stringLen = r'.stringLen
    | _ + 3, _, _ => True
  same_put
    | 0, _, _ => rfl
    | 1, _, _ => rfl
    | 2, _, _ => rfl
    | _ + 3, _, _ => trivial
  same_of_ne {k j} := by
    intro r old r' hne h
    match k, j with
    | 0, 0 | 1, 1 | 2, 2 => exact absurd rfl hne
    | 0, 1 | 0, 2 | 0, _ + 3 | 1, 0 | 1, 2 | 1, _ + 3 | 2, 0 | 2, 1 | 2, _ + 3 => exact h
    | _ + 3, _ => trivial
  same_trans {k} := by
    intro r r' r'' h h'
    match k with
    | 0 | 1 | 2 => exact h.trans h'
    | _ + 3 => trivial
  eq_of_same {r r'} h := by
    obtain ⟨messages, command, stringLen⟩ := r
    obtain ⟨messages', command', stringLen'⟩ := r'
    obtain rfl : messages = messages' := h 0 (by decide)
    obtain rfl : command = command' := h 1 (by decide)
    obtain rfl : stringLen = stringLen' := h 2 (by decide)
    rfl

/-- The state of the program, and how far the handlers are with the record in `ptr` and with
    the one in `ptr1`. -/
structure Fine where
  s : State
  cmd : Access Record
  ack : Access Record

inductive FineAction
  /-- A step that neither writes nor reads a record. -/
  | step (a : Action)
  /-- The part `k` is written. -/
  | write1 (k : ℕ)
  | write2 (k : ℕ)
  /-- The part `k` is read. -/
  | read1 (k : ℕ)
  | read2 (k : ℕ)
  /-- All parts have been read, and are logged. -/
  | print1
  | print2
  deriving DecidableEq

/-- The step touches no record. -/
def Silent : Action → Prop
  | .publish1 | .logAck1 | .logCmd2 | .publish2 => False
  | _ => True

instance : DecidablePred Silent := fun a => by
  cases a <;> (dsimp only [Silent]; infer_instance)

variable (P : Parts Record) (T : Tables)

def fineGuard (t : Fine) : FineAction → Prop
  | .step a => guard t.s a ∧ Silent a
  | .write1 k => t.s.pc1 = .publish ∧ k = t.cmd.wrote
  | .write2 k => t.s.pc2 = .publish ∧ k = t.ack.wrote
  | .read1 k => t.s.pc1 = .logAck ∧ k < P.n
  | .read2 k => t.s.pc2 = .logCmd ∧ k < P.n
  | .print1 => t.s.pc1 = .logAck ∧ ∀ k < P.n, k ∈ t.ack.seen
  | .print2 => t.s.pc2 = .logCmd ∧ ∀ k < P.n, k ∈ t.cmd.seen

instance (t : Fine) (a : FineAction) : Decidable (fineGuard P t a) := by
  cases a <;> (dsimp only [fineGuard]; infer_instance)

def fineAct (a : FineAction) (t : Fine) : Fine :=
  match a with
  | .step a => { t with s := act T a t.s }
  | .write1 k =>
    { t with
      s := { t.s with
        ptr := P.put k (T.t1 t.s.i1) t.s.ptr
        pc1 := if k + 1 = P.n then .poll else .publish }
      cmd := t.cmd.write P }
  | .write2 k =>
    { t with
      s := { t.s with
        ptr1 := P.put k (T.t2 t.s.i2) t.s.ptr1
        pc2 := if k + 1 = P.n then .count else .publish }
      ack := t.ack.write P }
  | .read1 k => { t with ack := t.ack.read P k t.s.ptr1 }
  | .read2 k => { t with cmd := t.cmd.read P k t.s.ptr }
  | .print1 =>
    { t with
      s := { t.s with logged1 := t.s.logged1 ++ [t.ack.copy], pc1 := .clear }
      ack := t.ack.finish }
  | .print2 =>
    { t with
      s := { t.s with logged2 := t.s.logged2 ++ [t.cmd.copy], pc2 := .publish }
      cmd := t.cmd.finish }

/-- `shared_memory.c` where a record is written and read in the parts `P`. -/
def fine : Program Fine FineAction where
  init t := (program T).init t.s ∧
    (t.cmd.wrote = 0 ∧ t.cmd.seen = []) ∧ t.ack.wrote = 0 ∧ t.ack.seen = []
  guard := fineGuard P
  act := fineAct P T

instance (t : Fine) (a : FineAction) : Decidable ((fine P T).guard t a) :=
  inferInstanceAs (Decidable (fineGuard P t a))

/-- No part is written while the record is being read, and none is read while it is being
    written. -/
def Alone (t : Fine) : FineAction → Prop
  | .write1 _ => t.cmd.seen = []
  | .read2 _ => t.cmd.wrote = 0
  | .write2 _ => t.ack.seen = []
  | .read1 _ => t.ack.wrote = 0
  | _ => True

instance (t : Fine) (a : FineAction) : Decidable (Alone t a) := by
  cases a <;> (dsimp only [Alone]; infer_instance)

/-! ## Records that are written and read alone -/

/-- The step of the program with whole records that a step stands for: a record is written with
    its first part, and read when it is logged. -/
def wholeStep : FineAction → Option Action
  | .step a => some a
  | .write1 0 => some .publish1
  | .write2 0 => some .publish2
  | .print1 => some .logAck1
  | .print2 => some .logCmd2
  | _ => none

/-- The state of the program with whole records: a record is there as soon as its first part
    is. -/
def wholeState (t : Fine) : State :=
  { t.s with
    ptr := t.cmd.whole t.s.ptr (T.t1 t.s.i1)
    pc1 := if t.cmd.wrote = 0 then t.s.pc1 else .poll
    ptr1 := t.ack.whole t.s.ptr1 (T.t2 t.s.i2)
    pc2 := if t.ack.wrote = 0 then t.s.pc2 else .count }

/-- The parts that have been written are those of the record, the parts that have been read are
    those of the record that is there, and a handler that has begun to write is still at it. -/
structure Coherent (t : Fine) : Prop where
  cmd : t.cmd.Coherent P t.s.ptr (T.t1 t.s.i1)
  ack : t.ack.Coherent P t.s.ptr1 (T.t2 t.s.i2)
  publish1 : t.cmd.wrote ≠ 0 → t.s.pc1 = .publish
  publish2 : t.ack.wrote ≠ 0 → t.s.pc2 = .publish

variable {P T} {t : Fine}

/-- A step that touches no record is one of the program with whole records. -/
theorem Coherent.step (hc : Coherent P T t) {a : Action} (hg : guard t.s a) (hsilent : Silent a) :
    guard (wholeState T t) a ∧
      Coherent P T { t with s := act T a t.s } ∧
      wholeState T { t with s := act T a t.s } = act T a (wholeState T t) := by
  have hcmd : t.s.pc1 ≠ .publish → t.cmd.wrote = 0 := not_imp_comm.mp hc.publish1
  have hack : t.s.pc2 ≠ .publish → t.ack.wrote = 0 := not_imp_comm.mp hc.publish2
  cases a with
  | publish1 | logAck1 | logCmd2 | publish2 => exact hsilent.elim
  | sigint => exact ⟨trivial, ⟨hc.cmd, hc.ack, hc.publish1, hc.publish2⟩, rfl⟩
  | head1 | poll1 | pollFlag1 | clear1 | count1 =>
    simp only [guard] at hg
    have hidle := hcmd (by simp [hg])
    refine ⟨by simp [guard, wholeState, hidle, hg], ?_, ?_⟩
    · exact ⟨hc.cmd.of_idle hidle _, hc.ack, fun h => absurd hidle h, hc.publish2⟩
    · simp [wholeState, act, Access.whole, hidle]
  | start2 | head2 | count2 | set2 =>
    simp only [guard] at hg
    have hidle := hack (by simp [hg])
    refine ⟨by simp [guard, wholeState, hidle, hg], ?_, ?_⟩
    · exact ⟨hc.cmd, hc.ack.of_idle hidle _, hc.publish1, fun h => absurd hidle h⟩
    · simp [wholeState, act, Access.whole, hidle]

/-- Writing the first part is writing the record, and the other parts are written to no effect. -/
theorem Coherent.write1 (hc : Coherent P T t) (hseen : t.cmd.seen = []) :
    Coherent P T (fineAct P T (.write1 t.cmd.wrote) t) ∧
      wholeState T (fineAct P T (.write1 t.cmd.wrote) t) =
        { wholeState T t with ptr := T.t1 t.s.i1, pc1 := .poll } := by
  by_cases hlast : t.cmd.wrote + 1 = P.n
  · have hwrote : (t.cmd.write P).wrote = 0 := if_pos hlast
    refine ⟨⟨hc.cmd.write hseen, hc.ack, fun h => absurd hwrote h, hc.publish2⟩, ?_⟩
    simp [wholeState, fineAct, hc.cmd.whole_write, hwrote, hlast]
  · have hwrote : (t.cmd.write P).wrote = t.cmd.wrote + 1 := if_neg hlast
    refine ⟨⟨hc.cmd.write hseen, hc.ack, fun _ => if_neg hlast, hc.publish2⟩, ?_⟩
    simp [wholeState, fineAct, hc.cmd.whole_write, hwrote]
    rfl

theorem Coherent.write2 (hc : Coherent P T t) (hseen : t.ack.seen = []) :
    Coherent P T (fineAct P T (.write2 t.ack.wrote) t) ∧
      wholeState T (fineAct P T (.write2 t.ack.wrote) t) =
        { wholeState T t with ptr1 := T.t2 t.s.i2, pc2 := .count } := by
  by_cases hlast : t.ack.wrote + 1 = P.n
  · have hwrote : (t.ack.write P).wrote = 0 := if_pos hlast
    refine ⟨⟨hc.cmd, hc.ack.write hseen, hc.publish1, fun h => absurd hwrote h⟩, ?_⟩
    simp [wholeState, fineAct, hc.ack.whole_write, hwrote, hlast]
  · have hwrote : (t.ack.write P).wrote = t.ack.wrote + 1 := if_neg hlast
    refine ⟨⟨hc.cmd, hc.ack.write hseen, hc.publish1, fun _ => if_neg hlast⟩, ?_⟩
    simp [wholeState, fineAct, hc.ack.whole_write, hwrote]
    rfl

/-- Once all parts have been read, the copy is the record of the program with whole records. -/
theorem Coherent.print1 (hc : Coherent P T t) (hpc : t.s.pc1 = .logAck)
    (hall : ∀ k < P.n, k ∈ t.ack.seen) :
    guard (wholeState T t) .logAck1 ∧ Coherent P T (fineAct P T .print1 t) ∧
      wholeState T (fineAct P T .print1 t) = act T .logAck1 (wholeState T t) := by
  have hcmd : t.cmd.wrote = 0 := not_imp_comm.mp hc.publish1 (by simp [hpc])
  have hack := hc.ack.idle_of_seen hall
  refine ⟨by simp [guard, wholeState, hcmd, hpc], ?_, ?_⟩
  · exact ⟨hc.cmd, hc.ack.finish, fun h => absurd hcmd h, hc.publish2⟩
  · simp [wholeState, fineAct, act, Access.whole, Access.finish, hcmd, hack, hc.ack.copy_eq hall]

theorem Coherent.print2 (hc : Coherent P T t) (hpc : t.s.pc2 = .logCmd)
    (hall : ∀ k < P.n, k ∈ t.cmd.seen) :
    guard (wholeState T t) .logCmd2 ∧ Coherent P T (fineAct P T .print2 t) ∧
      wholeState T (fineAct P T .print2 t) = act T .logCmd2 (wholeState T t) := by
  have hack : t.ack.wrote = 0 := not_imp_comm.mp hc.publish2 (by simp [hpc])
  have hcmd := hc.cmd.idle_of_seen hall
  refine ⟨by simp [guard, wholeState, hack, hpc], ?_, ?_⟩
  · exact ⟨hc.cmd.finish, hc.ack, hc.publish1, fun h => absurd hack h⟩
  · simp [wholeState, fineAct, act, Access.whole, Access.finish, hcmd, hack, hc.cmd.copy_eq hall]

/-- Where each record is written and read alone, the program does what the program does that
    writes and reads whole records. -/
theorem alone_refines : Refinement ((fine P T).restrict Alone) (program T) wholeStep
    fun t s => Coherent P T t ∧ wholeState T t = s where
  init t := by
    rintro ⟨hinit, ⟨hcmd, hcmdSeen⟩, hack, hackSeen⟩
    refine ⟨t.s, hinit, ⟨?_, ?_, fun h => absurd hcmd h, fun h => absurd hack h⟩, ?_⟩
    · exact .fresh hcmd hcmdSeen _ _
    · exact .fresh hack hackSeen _ _
    · simp [wholeState, Access.whole, hcmd, hack]
  stutter t a s := by
    rintro ⟨hg, halone⟩ hnone ⟨hc, rfl⟩
    match a with
    | .write1 (k + 1) =>
      obtain ⟨hpc, hk⟩ : t.s.pc1 = .publish ∧ k + 1 = t.cmd.wrote := hg
      have hw := hc.write1 halone
      rw [← hk] at hw
      refine ⟨hw.1, hw.2.trans ?_⟩
      simp [wholeState, Access.whole, ← hk]
    | .write2 (k + 1) =>
      obtain ⟨hpc, hk⟩ : t.s.pc2 = .publish ∧ k + 1 = t.ack.wrote := hg
      have hw := hc.write2 halone
      rw [← hk] at hw
      refine ⟨hw.1, hw.2.trans ?_⟩
      simp [wholeState, Access.whole, ← hk]
    | .read1 k => exact ⟨⟨hc.cmd, hc.ack.read_part halone k, hc.publish1, hc.publish2⟩, rfl⟩
    | .read2 k => exact ⟨⟨hc.cmd.read_part halone k, hc.ack, hc.publish1, hc.publish2⟩, rfl⟩
    | .step _ | .write1 0 | .write2 0 | .print1 | .print2 => cases hnone
  step t a s b := by
    rintro ⟨hg, halone⟩ hsome ⟨hc, rfl⟩
    match a with
    | .step a =>
      obtain rfl : a = b := Option.some.inj hsome
      exact hc.step hg.1 hg.2
    | .write1 0 =>
      obtain rfl : .publish1 = b := Option.some.inj hsome
      obtain ⟨hpc, hk⟩ : t.s.pc1 = .publish ∧ 0 = t.cmd.wrote := hg
      have hw := hc.write1 halone
      rw [← hk] at hw
      exact ⟨by simp [program, guard, wholeState, ← hk, hpc], hw⟩
    | .write2 0 =>
      obtain rfl : .publish2 = b := Option.some.inj hsome
      obtain ⟨hpc, hk⟩ : t.s.pc2 = .publish ∧ 0 = t.ack.wrote := hg
      have hw := hc.write2 halone
      rw [← hk] at hw
      exact ⟨by simp [program, guard, wholeState, ← hk, hpc], hw⟩
    | .print1 =>
      obtain rfl : .logAck1 = b := Option.some.inj hsome
      exact hc.print1 hg.1 hg.2
    | .print2 =>
      obtain rfl : .logCmd2 = b := Option.some.inj hsome
      exact hc.print2 hg.1 hg.2
    | .write1 (_ + 1) | .write2 (_ + 1) | .read1 _ | .read2 _ => cases hsome

/-- The handlers are neither writing nor reading a record. -/
def Fine.Idle (t : Fine) : Prop :=
  (t.cmd.wrote = 0 ∧ t.cmd.seen = []) ∧ t.ack.wrote = 0 ∧ t.ack.seen = []

theorem Fine.Idle.coherent (h : t.Idle) : Coherent P T t where
  cmd := .fresh h.1.1 h.1.2 _ _
  ack := .fresh h.2.1 h.2.2 _ _
  publish1 hne := absurd h.1.1 hne
  publish2 hne := absurd h.2.1 hne

theorem Fine.Idle.wholeState_eq (h : t.Idle) : wholeState T t = t.s := by
  simp [wholeState, Access.whole, h.1.1, h.2.1]

/-- The parts of a record can be written one after the other. -/
theorem run_write1 (ht : t.Idle) (hpc : t.s.pc1 = .publish) :
    ((fine P T).restrict Alone).Run t ((List.range P.n).map .write1)
      { t with s := act T .publish1 t.s } := by
  have hrun := Program.run_range (P := (fine P T).restrict Alone)
    (fun k =>
      { t with
        s := { t.s with
          ptr := P.puts k (T.t1 t.s.i1) t.s.ptr
          pc1 := if k = P.n then .poll else .publish }
        cmd := t.cmd.writes P k })
    .write1 P.n fun k hk => by
      refine ⟨⟨⟨if_neg hk.ne, (if_neg hk.ne).symm⟩, ht.1.2⟩, ?_⟩
      simp [Program.restrict, fine, fineAct, Access.write_writes hk, Parts.puts]
  have hcmd : t.cmd.writes P 0 = t.cmd ∧ t.cmd.writes P P.n = t.cmd := by
    simp [Access.writes, Access.ext_iff, ht.1.1]
  simpa [Parts.puts, Parts.puts_all, hcmd, P.pos.ne, ← hpc, act] using hrun

theorem run_write2 (ht : t.Idle) (hpc : t.s.pc2 = .publish) :
    ((fine P T).restrict Alone).Run t ((List.range P.n).map .write2)
      { t with s := act T .publish2 t.s } := by
  have hrun := Program.run_range (P := (fine P T).restrict Alone)
    (fun k =>
      { t with
        s := { t.s with
          ptr1 := P.puts k (T.t2 t.s.i2) t.s.ptr1
          pc2 := if k = P.n then .count else .publish }
        ack := t.ack.writes P k })
    .write2 P.n fun k hk => by
      refine ⟨⟨⟨if_neg hk.ne, (if_neg hk.ne).symm⟩, ht.2.2⟩, ?_⟩
      simp [Program.restrict, fine, fineAct, Access.write_writes hk, Parts.puts]
  have hack : t.ack.writes P 0 = t.ack ∧ t.ack.writes P P.n = t.ack := by
    simp [Access.writes, Access.ext_iff, ht.2.1]
  simpa [Parts.puts, Parts.puts_all, hack, P.pos.ne, ← hpc, act] using hrun

/-- The parts of a record can be read one after the other. -/
theorem run_read1 (ht : t.Idle) (hpc : t.s.pc1 = .logAck) :
    ((fine P T).restrict Alone).Run t ((List.range P.n).map .read1)
      { t with ack := t.ack.reads P P.n t.s.ptr1 } := by
  have hrun := Program.run_range (P := (fine P T).restrict Alone)
    (fun k => { t with ack := t.ack.reads P k t.s.ptr1 })
    .read1 P.n fun k hk => ⟨⟨⟨hpc, hk⟩, ht.2.1⟩, by
      simp [Program.restrict, fine, fineAct, Access.read_reads]⟩
  have hack : t.ack.reads P 0 t.s.ptr1 = t.ack := by
    simp [Access.reads, Access.ext_iff, Parts.puts, ht.2.2]
  rwa [hack] at hrun

theorem run_read2 (ht : t.Idle) (hpc : t.s.pc2 = .logCmd) :
    ((fine P T).restrict Alone).Run t ((List.range P.n).map .read2)
      { t with cmd := t.cmd.reads P P.n t.s.ptr } := by
  have hrun := Program.run_range (P := (fine P T).restrict Alone)
    (fun k => { t with cmd := t.cmd.reads P k t.s.ptr })
    .read2 P.n fun k hk => ⟨⟨⟨hpc, hk⟩, ht.1.1⟩, by
      simp [Program.restrict, fine, fineAct, Access.read_reads]⟩
  have hcmd : t.cmd.reads P 0 t.s.ptr = t.cmd := by
    simp [Access.reads, Access.ext_iff, Parts.puts, ht.1.2]
  rwa [hcmd] at hrun

/-- The steps of the parts for a step of whole records. -/
def partSteps (P : Parts Record) : Action → List FineAction
  | .publish1 => (List.range P.n).map .write1
  | .publish2 => (List.range P.n).map .write2
  | .logAck1 => (List.range P.n).map .read1 ++ [.print1]
  | .logCmd2 => (List.range P.n).map .read2 ++ [.print2]
  | a => [.step a]

theorem filterMap_partSteps (P : Parts Record) (a : Action) :
    (partSteps P a).filterMap wholeStep = [a] := by
  cases a with
  | publish1 | publish2 =>
    obtain ⟨m, hm⟩ := Nat.exists_eq_succ_of_ne_zero P.pos.ne'
    simp [partSteps, wholeStep, hm, List.range_succ_eq_map, Function.comp_def]
  | logAck1 | logCmd2 =>
    have hnone : ((List.range P.n).map FineAction.read1).filterMap wholeStep = [] ∧
        ((List.range P.n).map FineAction.read2).filterMap wholeStep = [] := by
      simp [wholeStep]
    simp [partSteps, List.filterMap_append, hnone, wholeStep]
  | _ => rfl

/-- A step of whole records can be made part by part. -/
theorem exists_partSteps (ht : t.Idle) {a : Action} (hg : guard t.s a) :
    ∃ t', ((fine P T).restrict Alone).Run t (partSteps P a) t' ∧ t'.Idle ∧
      t'.s = act T a t.s := by
  cases a with
  | publish1 => exact ⟨_, run_write1 ht hg, ht, rfl⟩
  | publish2 => exact ⟨_, run_write2 ht hg, ht, rfl⟩
  | logAck1 =>
    have hrun := run_read1 (P := P) (T := T) ht hg
    refine ⟨_, hrun.append (.cons ⟨⟨hg, ?_⟩, trivial⟩ (.nil _)), ⟨ht.1, ht.2.1, rfl⟩, ?_⟩
    · simp [Access.reads]
    · simp [Program.restrict, fine, fineAct, act, Access.reads, Parts.puts_all]
  | logCmd2 =>
    have hrun := run_read2 (P := P) (T := T) ht hg
    refine ⟨_, hrun.append (.cons ⟨⟨hg, ?_⟩, trivial⟩ (.nil _)), ⟨⟨ht.1.1, rfl⟩, ht.2⟩, ?_⟩
    · simp [Access.reads]
    · simp [Program.restrict, fine, fineAct, act, Access.reads, Parts.puts_all]
  | _ => exact ⟨_, .cons ⟨⟨hg, trivial⟩, trivial⟩ (.nil _), ht, rfl⟩

theorem exists_alone_run {s s' : State} {bs : List Action} (h : (program T).Run s bs s') :
    ∀ t : Fine, t.Idle → t.s = s → ∃ as t', ((fine P T).restrict Alone).Run t as t' ∧ t'.Idle ∧
      as.filterMap wholeStep = bs ∧ t'.s = s' := by
  induction h with
  | nil s => exact fun t ht hs => ⟨[], t, .nil t, ht, rfl, hs⟩
  | @cons s s' a bs hg _ ih =>
    intro t ht hs
    obtain ⟨u, hu, hidle, hus⟩ := exists_partSteps (P := P) (T := T) ht (hs ▸ hg)
    obtain ⟨as, t', hrun, ht', has, hs'⟩ := ih u hidle (hus.trans (hs ▸ rfl))
    refine ⟨partSteps P a ++ as, t', hu.append hrun, ht', ?_, hs'⟩
    rw [List.filterMap_append, filterMap_partSteps, has]
    rfl

/-- In the runs in which each record is written and read alone the handlers do exactly what they
    do where a record is written and read at once. -/
theorem alone_run_iff {t₀ : Fine} (h₀ : (fine P T).init t₀) (bs : List Action) (s : State) :
    (program T).Run t₀.s bs s ↔ ∃ as t, ((fine P T).restrict Alone).Run t₀ as t ∧
      as.filterMap wholeStep = bs ∧ wholeState T t = s := by
  have hidle : t₀.Idle := h₀.2
  constructor
  · intro h
    obtain ⟨as, t, hrun, ht, has, hs⟩ := exists_alone_run (P := P) h t₀ hidle rfl
    exact ⟨as, t, hrun, has, ht.wholeState_eq.trans hs⟩
  · rintro ⟨as, t, hrun, rfl, rfl⟩
    obtain ⟨s, hs, -, rfl⟩ := alone_refines.run hrun t₀.s ⟨hidle.coherent, hidle.wholeState_eq⟩
    exact hs

/-- Two rounds with records that differ in all fields. -/
def letterTables : Tables where
  n := 2
  t1 i := ⟨Vector.replicate 40 (65 + i.toUInt8), 1 + i.toUInt32, 20 + i.toUInt32⟩
  t2 _ := default

/-- `main` has started `thread1_handler`; `receive_buff` and the records hold zeros. -/
def fineStart : Fine := ⟨start default default, ⟨0, [], default⟩, ⟨0, [], default⟩⟩

theorem fineStart_init (P : Parts Record) (T : Tables) : (fine P T).init fineStart :=
  ⟨⟨default, default, rfl⟩, ⟨rfl, rfl⟩, rfl, rfl⟩

theorem alone_run_iff_first_read :
    ∃ as t, ((fine fields letterTables).restrict Alone).Run fineStart as t ∧
      as.filterMap wholeStep = [.head1, .publish1, .start2, .head2, .logCmd2] ∧
      (wholeState letterTables t).logged2 = [letterTables.t1 0] := by
  obtain ⟨as, t, hrun, has, hs⟩ := (alone_run_iff (fineStart_init fields letterTables)
    [.head1, .publish1, .start2, .head2, .logCmd2] _).mp (Program.run_of_exec _ _ _ rfl)
  exact ⟨as, t, hrun, has, hs ▸ rfl⟩

/-! ## Records that are disturbed -/

/-- The counter of `thread1_handler`, with or without a signal. -/
def Asks (n : ℕ) (pc : Pc1) (i : ℕ) : Prop :=
  match pc with
  | .head | .killed | .done => i ≤ n
  | .publish | .poll | .pollFlag | .logAck | .clear | .count => i < n

theorem asks_act {s : State} {a : Action} (h : Asks T.n s.pc1 s.i1) (hg : guard s a) :
    Asks T.n (act T a s).pc1 (act T a s).i1 := by
  cases a with
  | head1 =>
    simp only [Asks, show s.pc1 = .head from hg] at h
    cases hf : s.flag with
    | true => simpa [act, Asks, hf] using h
    | false =>
      by_cases hn : s.i1 = T.n
      · simp [act, Asks, hf, hn]
      · simpa [act, Asks, hf, hn] using lt_of_le_of_ne h hn
  | poll1 =>
    simp only [Asks, show s.pc1 = .poll from hg] at h
    cases hs : s.send <;> simpa [act, Asks, hs] using h
  | pollFlag1 =>
    simp only [Asks, show s.pc1 = .pollFlag from hg] at h
    cases hf : s.flag with
    | true => simpa [act, Asks, hf] using h.le
    | false => simpa [act, Asks, hf] using h
  | publish1 | logAck1 | clear1 | count1 =>
    simp only [guard] at hg
    simp only [Asks, hg] at h
    exact h
  | _ => exact h

/-- The records that a handler may have written up to its round `i`, and what was in memory
    before. -/
def SentBy (table : ℕ → Record) (n i : ℕ) (before r : Record) : Prop :=
  r = before ∨ ∃ j, j < n ∧ j ≤ i ∧ r = table j

theorem SentBy.mono {table : ℕ → Record} {n i i' : ℕ} (hi : i ≤ i') (before r : Record)
    (h : SentBy table n i before r) : SentBy table n i' before r :=
  h.imp_right fun ⟨j, hn, hj, hr⟩ => ⟨j, hn, hj.trans hi, hr⟩

/-- The two records and the two logs have no parts but those of records that have been sent. -/
structure Sourced (P : Parts Record) (T : Tables) (before : State) (t : Fine) : Prop where
  asks : Asks T.n t.s.pc1 t.s.i1
  answers : Answers T.n t.s.pc2 t.s.i2
  cmd : t.cmd.Sourced P (SentBy T.t1 T.n t.s.i1 before.ptr) t.s.ptr t.s.logged2
  ack : t.ack.Sourced P (SentBy T.t2 T.n t.s.i2 before.ptr1) t.s.ptr1 t.s.logged1

theorem Sourced.step {before : State} (h : Sourced P T before t) {a : FineAction}
    (hg : fineGuard P t a) : Sourced P T before (fineAct P T a t) := by
  cases a with
  | step a =>
    obtain ⟨hg, hsilent⟩ : guard t.s a ∧ Silent a := hg
    refine ⟨asks_act h.asks hg, (h.answers.counts_act hg).1, ?_, ?_⟩
    · cases a with
      | publish1 | logCmd2 => exact hsilent.elim
      | count1 => exact h.cmd.mono (SentBy.mono (Nat.le_succ _) _)
      | _ => exact h.cmd
    · cases a with
      | publish2 | logAck1 => exact hsilent.elim
      | count2 => exact h.ack.mono (SentBy.mono (Nat.le_succ _) _)
      | _ => exact h.ack
  | write1 k =>
    obtain ⟨hpc, hk⟩ : t.s.pc1 = .publish ∧ k = t.cmd.wrote := hg
    have hlt : t.s.i1 < T.n := by simpa only [Asks, hpc] using h.asks
    refine ⟨?_, h.answers, h.cmd.write (.inr ⟨_, hlt, le_rfl, rfl⟩) k, h.ack⟩
    simp only [fineAct]
    split <;> exact hlt
  | write2 k =>
    obtain ⟨hpc, hk⟩ : t.s.pc2 = .publish ∧ k = t.ack.wrote := hg
    have hlt : t.s.i2 < T.n := by simpa only [Answers, hpc] using h.answers
    refine ⟨h.asks, ?_, h.cmd, h.ack.write (.inr ⟨_, hlt, le_rfl, rfl⟩) k⟩
    simp only [fineAct]
    split <;> exact hlt
  | read1 k => exact ⟨h.asks, h.answers, h.cmd, h.ack.read k⟩
  | read2 k => exact ⟨h.asks, h.answers, h.cmd.read k, h.ack⟩
  | print1 =>
    obtain ⟨hpc, hall⟩ := hg
    have hlt : t.s.i1 < T.n := by simpa only [Asks, hpc] using h.asks
    exact ⟨hlt, h.answers, h.cmd, h.ack.finish hall⟩
  | print2 =>
    obtain ⟨hpc, hall⟩ := hg
    have hlt : t.s.i2 < T.n := by simpa only [Answers, hpc] using h.answers
    exact ⟨h.asks, hlt, h.cmd.finish hall, h.ack⟩

/-- Each part of a logged record is that of a record that has been sent, or of what was in
    memory before: also where the records are disturbed, and after a signal. -/
theorem parts_sent {t₀ : Fine} {as : List FineAction} (h₀ : (fine P T).init t₀)
    (h : (fine P T).Run t₀ as t) :
    (∀ r ∈ t.s.logged1, P.Mixed (SentBy T.t2 T.n t.s.i2 t₀.s.ptr1) r) ∧
      ∀ r ∈ t.s.logged2, P.Mixed (SentBy T.t1 T.n t.s.i1 t₀.s.ptr) r := by
  obtain ⟨⟨ptr, ptr1, hs⟩, ⟨-, hcmd⟩, -, hack⟩ := h₀
  have hinit : Sourced P T t₀.s t₀ := by
    have hmixed (table : ℕ → Record) (i : ℕ) (r : Record) : P.Mixed (SentBy table T.n i r) r :=
      Parts.mixed_of_mem (.inl rfl)
    refine ⟨?_, ?_, ⟨hmixed _ _ _, ?_, ?_⟩, ⟨hmixed _ _ _, ?_, ?_⟩⟩
    all_goals simp [hs, hcmd, hack, start, Asks, Answers]
  have hlast : Sourced P T t₀.s t :=
    (h.throughout (fun _ hi => hi) (fun _ _ hi hg => hi.step hg) hinit).last h
  exact ⟨hlast.ack.taken, hlast.cmd.taken⟩

/-- The first record has been written up to its first field when it is read. -/
theorem parts_sent_first_field :
    ∃ t, (fine fields letterTables).exec [.step .head1, .write1 0, .step .start2, .step .head2,
        .read2 2, .read2 0, .read2 1, .print2] fineStart = some t ∧
      t.s.logged2 = [{ (default : Record) with messages := (letterTables.t1 0).messages }] ∧
      ∀ r ∈ t.s.logged2, fields.Mixed (SentBy letterTables.t1 2 0 default) r := by
  refine ⟨_, rfl, rfl, ?_⟩
  exact (parts_sent (fineStart_init fields letterTables) (Program.run_of_exec _ [.step .head1,
    .write1 0, .step .start2, .step .head2, .read2 2, .read2 0, .read2 1, .print2] _ rfl)).2

/-- Both handlers are about to begin round `k`, and have logged one record each round. -/
structure AtHeads (T : Tables) (k : ℕ) (s : State) : Prop where
  flag : s.flag = false
  send : s.send = false
  pc1 : s.pc1 = .head
  i1 : s.i1 = k
  pc2 : s.pc2 = .head
  i2 : s.i2 = k
  length : s.logged2.length = k
  ptr : ∀ j, k = j + 1 → s.ptr = T.t1 j

/-- A round in which each handler waits for the other one. -/
def roundSteps : List Action :=
  [.head1, .publish1, .head2, .logCmd2, .publish2, .count2, .set2, .poll1, .logAck1, .clear1,
    .count1]

theorem AtHeads.round {k : ℕ} {s : State} (h : AtHeads T k s) (hk : k < T.n) :
    ∃ s', (program T).Run s roundSteps s' ∧ AtHeads T (k + 1) s' := by
  have hexec : (program T).exec roundSteps s = some
      { s with
        ptr := T.t1 k
        ptr1 := T.t2 k
        i1 := k + 1
        logged1 := s.logged1 ++ [T.t2 k]
        i2 := k + 1
        logged2 := s.logged2 ++ [T.t1 k] } := by
    obtain ⟨hflag, hsend, hpc1, hi1, hpc2, hi2, -, -⟩ := h
    simp [roundSteps, Program.exec, program, guard, act, hflag, hsend, hpc1, hi1, hpc2, hi2, hk.ne]
  refine ⟨_, Program.run_of_exec _ _ _ hexec, h.flag, h.send, h.pc1, rfl, h.pc2, rfl, ?_, ?_⟩
  · simp [h.length]
  · intro j hj
    rw [show j = k by omega]

theorem exists_atHeads {s₀ : State} (h₀ : (program T).init s₀) {k : ℕ} (hk : k ≤ T.n) :
    ∃ bs s, (program T).Run s₀ bs s ∧ AtHeads T k s := by
  induction k with
  | zero =>
    obtain ⟨ptr, ptr1, rfl⟩ := h₀
    exact ⟨[.start2], _, .cons rfl (.nil _), rfl, rfl, rfl, rfl, rfl, rfl, rfl, nofun⟩
  | succ k ih =>
    obtain ⟨bs, s, hrun, hs⟩ := ih (Nat.le_of_succ_le hk)
    obtain ⟨s', hround, hs'⟩ := hs.round hk
    exact ⟨_, s', hrun.append hround, hs'⟩

/-- The second handler reads the record after the first one has written its first field. -/
def tearSteps : List FineAction :=
  [.step .head1, .write1 0, .step .head2, .read2 0, .read2 1, .read2 2, .print2]

theorem AtHeads.tear {k : ℕ} {t : Fine} (ht : t.Idle) (h : AtHeads T (k + 1) t.s)
    (hk : k + 1 < T.n) :
    ∃ t', (fine fields T).Run t tearSteps t' ∧ t'.s.flag = false ∧
      t'.s.logged2[k + 1]? = some { T.t1 k with messages := (T.t1 (k + 1)).messages } := by
  obtain ⟨s, ⟨wrote, seen, copy⟩, ack⟩ := t
  obtain ⟨rfl, rfl⟩ : wrote = 0 ∧ seen = [] := ht.1
  have hptr : s.ptr = T.t1 k := h.ptr k rfl
  have hexec : (fine fields T).exec tearSteps ⟨s, ⟨0, [], copy⟩, ack⟩ = some
      ⟨{ s with
          ptr := { T.t1 k with messages := (T.t1 (k + 1)).messages }
          pc1 := .publish
          pc2 := .publish
          logged2 := s.logged2 ++ [{ T.t1 k with messages := (T.t1 (k + 1)).messages }] },
        ⟨1, [], { T.t1 k with messages := (T.t1 (k + 1)).messages }⟩, ack⟩ := by
    obtain ⟨hflag, -, hpc1, hi1, hpc2, hi2, -, -⟩ := h
    dsimp only at hflag hpc1 hi1 hpc2 hi2
    simp [tearSteps, Program.exec, fine, fineGuard, fineAct, guard, act, Silent, Access.write,
      Access.read, Access.finish, fields, hflag, hpc1, hi1, hpc2, hi2, hptr, hk.ne]
    omega
  refine ⟨_, Program.run_of_exec _ _ _ hexec, h.flag, ?_⟩
  simp [← h.length]

/-- The handshake does not keep the handlers apart: in every round but the first one the second
    handler can log the text of the new record with the command and the length of the last one,
    without a signal. -/
theorem torn_record {t₀ : Fine} (h₀ : (fine fields T).init t₀) {k : ℕ} (hk : k + 1 < T.n) :
    ∃ as t, (fine fields T).Run t₀ as t ∧ t.s.flag = false ∧
      t.s.logged2[k + 1]? = some { T.t1 k with messages := (T.t1 (k + 1)).messages } := by
  obtain ⟨bs, s, hrun, hs⟩ := exists_atHeads h₀.1 hk.le
  obtain ⟨as, t, hfine, ht, -, rfl⟩ := exists_alone_run (P := fields) hrun t₀ h₀.2 rfl
  obtain ⟨t', htear, hflag, hlog⟩ := hs.tear ht hk
  exact ⟨_, t', (Program.run_restrict_iff.mp hfine).1.append htear, hflag, hlog⟩

theorem torn_record_second :
    ∃ as t, (fine fields letterTables).Run fineStart as t ∧ t.s.flag = false ∧
      t.s.logged2[1]? = some ⟨(letterTables.t1 1).messages, 1, 20⟩ :=
  torn_record (fineStart_init fields letterTables) (by decide)

end Apes.SharedMemory
