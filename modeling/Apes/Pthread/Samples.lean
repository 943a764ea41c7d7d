import Apes.Pthread.Ticks

/-!
# The samples of `child2_thread_callback`

The log of the thread over a whole run: one entry for each `/proc/stat` that it has read, in
their order, each computed from that text alone, and no more of them than the timer has
ticked.
-/

namespace Apes.Pthread

open Apes

variable {t : CharType} {text : List UInt8} {s s' : State} {a : Action} {as : List Action}

/-! ## One sample -/

/-- The loop reads no element of the array that it has not written. -/
theorem parseLoop_congr {i : ℕ} {cpu cpu' : Cpu} (rest : List UInt8)
    (h : ∀ k (hk : k < 9), k < i → cpu[k] = cpu'[k]) :
    parseLoop i rest cpu = parseLoop i rest cpu' := by
  by_cases hi : i < 9
  · induction hn : 9 - i generalizing i rest cpu cpu' with
    | zero => omega
    | succ n ih =>
      cases htok : strtok 32 rest with
      | none => rw [parseLoop_of_none hi htok, parseLoop_of_none hi htok]
      | some p =>
        obtain ⟨substr, rest'⟩ := p
        rw [parseLoop_of_some hi htok, parseLoop_of_some hi htok]
        have hset (k : ℕ) (hk : k < 9) (hki : k < i + 1) :
            (cpu.set i (atoi substr))[k] = (cpu'.set i (atoi substr))[k] := by
          by_cases heq : i = k
          · subst heq
            rw [Vector.getElem_set_self, Vector.getElem_set_self]
          · rw [Vector.getElem_set_ne hi hk heq, Vector.getElem_set_ne hi hk heq]
            exact h k hk (by omega)
        by_cases hi' : i + 1 < 9
        · exact ih rest' hset hi' (by omega)
        · have heq : cpu.set i (atoi substr) = cpu'.set i (atoi substr) := by
            apply Vector.ext
            intro k hk
            exact hset k hk (by omega)
          rw [heq]
  · have heq : cpu = cpu' := by
      apply Vector.ext
      intro k hk
      exact h k hk (by omega)
    rw [heq]

/-- What was in `cpu` before does not matter. -/
theorem parseStat_congr (inputString : List UInt8) (cpu cpu' : Cpu) :
    parseStat inputString cpu = parseStat inputString cpu' := by
  have hloop (rest : List UInt8) : parseLoop 0 rest cpu = parseLoop 0 rest cpu' :=
    parseLoop_congr rest fun k hk hk0 => absurd hk0 (Nat.not_lt_zero k)
  unfold parseStat
  cases strtok 32 inputString with
  | none => exact hloop []
  | some p => exact hloop p.2

/-- The entry of the log that the text `stat` of `/proc/stat` gives. -/
def Logged (stat : List UInt8) (m : Message) : Prop :=
  ∃ cpu, sampleStat stat (Vector.replicate 9 0) = .ok cpu ∧
    m = .cpuUtilization (cpuUsage cpu) (cpuTime cpu)

/-- What a step reads from `/proc/stat`. -/
def reading : Action → Option (List UInt8)
  | .fgets2 stat => some stat
  | _ => none

/-- What the thread has read, in the order of its reads. -/
def readings (as : List Action) : List (List UInt8) := as.filterMap reading

/-! ## All samples -/

/-- The log up to the last sample but the one that is being taken. -/
def Child2.SampledIn (c : Child2) (stats : List (List UInt8)) : Prop :=
  ∃ entries, c.log = .entering :: entries ∧ List.Forall₂ Logged stats entries

/-- The log and the reads, at each place of the thread. -/
def Child2.Sampled (c : Child2) (stats : List (List UInt8)) : Prop :=
  match c.pc with
  | .entry => c.log = [] ∧ stats = []
  | .head | .leave | .check | .sample | .read | .clear => c.SampledIn stats
  | .parse => ∃ before stat, stats = before ++ [stat] ∧ c.SampledIn before ∧
      c.inputString = Apes.fgets 47 stat
  | .usage => ∃ before stat, stats = before ++ [stat] ∧ c.SampledIn before ∧
      sampleStat stat (Vector.replicate 9 0) = .ok c.cpu
  | .exited => ∃ entries, c.log = .entering :: entries ++ [.usr2Received] ∧
      List.Forall₂ Logged stats entries

/-- How many samples the ticks so far allow to be started. -/
def State.credit (s : State) : ℕ :=
  match s.child2.pc with
  | .sample => 1
  | .read | .parse | .usage | .clear => 0
  | .entry | .head | .leave | .check | .exited => s.flag.toNat

/-- Whether a sample has been started whose text has not been read. -/
def Child2.opening (c : Child2) : ℕ := if c.pc = .read then 1 else 0

/-- Every step keeps the entries in step with the reads. -/
theorem sampled_act {stats : List (List UInt8)} (hg : guard t s a) (h : s.child2.Sampled stats) :
    (act text a s).child2.Sampled (stats ++ readings [a]) := by
  cases a with
  | fgets2 stat =>
    obtain ⟨hpc, -⟩ := hg
    simp only [Child2.Sampled, hpc] at h
    exact ⟨stats, stat, rfl, h, rfl⟩
  | parse2 cpu =>
    obtain ⟨hpc, hparse⟩ := hg
    simp only [Child2.Sampled, hpc] at h
    obtain ⟨before, stat, rfl, hin, hline⟩ := h
    refine ⟨before, stat, List.append_nil _, hin, ?_⟩
    rw [sampleStat, parseStat_congr _ _ s.child2.cpu, ← hline]
    exact hparse
  | usage2 =>
    have hpc : s.child2.pc = .usage := hg
    simp only [Child2.Sampled, hpc] at h
    obtain ⟨before, stat, rfl, ⟨entries, hlog, hentries⟩, hcpu⟩ := h
    refine ⟨entries ++ [.cpuUtilization (cpuUsage s.child2.cpu) (cpuTime s.child2.cpu)], ?_, ?_⟩
    · simp only [act, Child2.logUsage, hlog]
      rfl
    · rw [show readings [Action.usage2] = [] from rfl, List.append_nil]
      exact List.rel_append hentries (.cons ⟨_, hcpu, rfl⟩ .nil)
  | leave2 =>
    have hpc : s.child2.pc = .leave := hg
    simp only [Child2.Sampled, hpc] at h
    obtain ⟨entries, hlog, hentries⟩ := h
    refine ⟨entries, ?_, (List.append_nil stats).symm ▸ hentries⟩
    simp only [act, Child2.leave, hlog]
  | open2 =>
    have hpc : s.child2.pc = .entry := hg
    simp only [Child2.Sampled, hpc] at h
    obtain ⟨hlog, rfl⟩ := h
    refine ⟨[], ?_, .nil⟩
    simp only [act, Child2.enter, hlog, List.nil_append]
  | head2 =>
    have hpc : s.child2.pc = .head := hg
    simp only [Child2.Sampled, hpc] at h
    refine (List.append_nil stats).symm ▸ ?_
    show (s.child2.goto (if s.flag2 then .leave else .check)).Sampled stats
    split <;> exact h
  | check2 =>
    have hpc : s.child2.pc = .check := hg
    simp only [Child2.Sampled, hpc] at h
    refine (List.append_nil stats).symm ▸ ?_
    show (s.child2.goto (if s.flag then .sample else .head)).Sampled stats
    split <;> exact h
  | open2Stat | clear2 =>
    simp only [guard] at hg
    simp only [Child2.Sampled, hg] at h
    exact (List.append_nil stats).symm ▸ h
  | _ => exact (List.append_nil stats).symm ▸ h

variable (text) in
/-- Every sample that is started uses up a tick. -/
theorem credit_act (hg : guard t s a) :
    (readings [a]).length + (act text a s).child2.opening + (act text a s).credit ≤
      s.child2.opening + s.credit + if a = .tick then 1 else 0 := by
  cases a with
  | tick =>
    cases hpc : s.child2.pc <;>
      simp [act, readings, reading, List.filterMap_cons, Child2.opening, State.credit, hpc,
        Bool.toNat]
  | open2 | open2Stat | usage2 | clear2 | leave2 =>
    simp only [guard] at hg
    simp [act, readings, reading, Child2.enter, Child2.openStat, Child2.logUsage, Child2.goto,
      Child2.leave, Child2.opening, State.credit, hg]
  | fgets2 | parse2 =>
    obtain ⟨hpc, -⟩ := hg
    simp [act, readings, reading, Child2.fgets, Child2.parsed, Child2.opening, State.credit, hpc]
  | head2 =>
    have hpc : s.child2.pc = .head := hg
    cases hf : s.flag2 <;>
      simp [act, readings, reading, Child2.goto, Child2.opening, State.credit, hpc, hf]
  | check2 =>
    have hpc : s.child2.pc = .check := hg
    cases hf : s.flag <;>
      simp [act, readings, reading, Child2.goto, Child2.opening, State.credit, hpc, hf]
  | _ =>
    show 0 + s.child2.opening + s.credit ≤ s.child2.opening + s.credit + 0
    omega

/-- The entries are in step with the reads, and the reads within the ticks. -/
structure SampleInv (hist : List Action) (s : State) : Prop where
  sampled : s.child2.Sampled (readings hist)
  ticks : (readings hist).length + s.child2.opening + s.credit ≤ hist.count .tick

theorem SampleInv.step {hist : List Action} (h : SampleInv hist s) (hg : guard t s a) :
    SampleInv (hist ++ [a]) (act text a s) where
  sampled := by
    rw [readings, List.filterMap_append]
    exact sampled_act hg h.sampled
  ticks := by
    have hticks := h.ticks
    have hcredit := credit_act text hg
    have hcount : [a].count .tick = if a = .tick then 1 else 0 := by
      simp [List.count_singleton]
    rw [readings, List.filterMap_append, List.length_append, List.count_append, hcount]
    simp only [readings] at hticks hcredit
    omega

/-- What a log of the thread may look like after the texts `stats` have been read: one entry
    for each of them, but for the last one while it is being parsed. -/
structure SampleLog (stats : List (List UInt8)) (c : Child2) : Prop where
  ongoing : ¬ c.Exited → c.pc ≠ .entry →
    ∃ before entries, before <+: stats ∧ stats.length ≤ before.length + 1 ∧
      c.log = .entering :: entries ∧ List.Forall₂ Logged before entries
  exited : c.Exited → ∃ entries, c.log = .entering :: entries ++ [.usr2Received] ∧
    List.Forall₂ Logged stats entries

theorem Child2.Sampled.sampleLog {c : Child2} {stats : List (List UInt8)} (h : c.Sampled stats) :
    SampleLog stats c where
  ongoing hexited hentry := by
    cases hpc : c.pc with
    | entry => exact absurd hpc hentry
    | exited => exact absurd hpc hexited
    | head | leave | check | sample | read | clear =>
      simp only [Child2.Sampled, hpc] at h
      obtain ⟨entries, hlog, hentries⟩ := h
      exact ⟨stats, entries, List.prefix_rfl, Nat.le_succ _, hlog, hentries⟩
    | parse | usage =>
      simp only [Child2.Sampled, hpc] at h
      obtain ⟨before, stat, rfl, ⟨entries, hlog, hentries⟩, -⟩ := h
      refine ⟨before, entries, List.prefix_append _ _, ?_, hlog, hentries⟩
      rw [List.length_append, List.length_singleton]
  exited hexited := by
    have hpc : c.pc = .exited := hexited
    simp only [Child2.Sampled, hpc] at h
    exact h

/-- In every run, whatever signals come and whatever `/proc/stat` holds at each read: the log has
    one entry for each text that was read, in this order, computed from that text alone, only
    the last one may be missing until the thread exits; and there are no more reads than
    ticks. -/
theorem samples_logged (t : CharType) (text : List UInt8) (h0 : (program t text).init s)
    (hrun : (program t text).Run s as s') :
    SampleLog (readings as) s'.child2 ∧ (readings as).length ≤ as.count .tick := by
  have hstart : SampleInv [] s := by
    obtain ⟨cpu, rfl⟩ := h0
    exact ⟨⟨rfl, rfl⟩, le_rfl⟩
  have hinv : SampleInv as s' :=
    hrun.history (I := SampleInv) (fun _ _ _ hi hg => hi.step hg) hstart
  have hticks := hinv.ticks
  exact ⟨hinv.sampled.sampleLog, by omega⟩

/-- Two ticks, of which one is lost, and one sample. -/
theorem samples_logged_tickInSample :
    ∃ s', (program .signed []).Run (start (Vector.replicate 9 0)) tickInSample s' ∧
      SampleLog [shortStat] s'.child2 ∧ tickInSample.count .tick = 2 := by
  obtain ⟨s', hrun, -⟩ := Program.exists_run_of_exec (program .signed []) (fun _ => True)
    tickInSample (start (Vector.replicate 9 0)) (by decide +kernel)
  exact ⟨s', hrun, (samples_logged .signed [] ⟨_, rfl⟩ hrun).1, by decide⟩

end Apes.Pthread
