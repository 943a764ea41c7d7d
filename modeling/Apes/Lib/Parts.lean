import Mathlib.Algebra.Order.Group.Nat

/-!
# Values that are written and read part by part

A value in shared memory is written in several stores and read in several loads. Where no part
is written while it is being read the reader gets the value that is there, as if both had
happened at once. Where one is, the parts that it gets need not belong together, but each of
them is a part of something that has been written.

## Main definitions

- `Parts`: a way to take the values of a type apart
- `Access`: how far the writer and the reader of a value are
- `Access.Coherent`: what holds of the two while neither of them disturbs the other one
- `Parts.Mixed`: a value each part of which comes from a given set of values
-/

namespace Apes

/-- Parts of the values of `β`, each of which is written and read at once. -/
structure Parts (β : Type*) where
  n : ℕ
  pos : 0 < n
  /-- The part `k` of the first value is written to the second one. -/
  put : ℕ → β → β → β
  /-- The values have the same part `k`. -/
  Same : ℕ → β → β → Prop
  same_put : ∀ k x old, Same k (put k x old) x
  same_of_ne : ∀ {k j x old y}, k ≠ j → Same k old y → Same k (put j x old) y
  same_trans : ∀ {k x y z}, Same k x y → Same k y z → Same k x z
  eq_of_same : ∀ {x y}, (∀ k < n, Same k x y) → x = y

/-- The writer of a value has written the parts before `wrote`, in their order; its reader has
    copied the parts in `seen`, in any order. -/
@[ext] structure Access (β : Type*) where
  wrote : ℕ
  seen : List ℕ
  copy : β

variable {β : Type*} {P : Parts β}

namespace Parts

/-- The parts before `k` are written. -/
def puts (P : Parts β) : ℕ → β → β → β
  | 0, _, old => old
  | k + 1, x, old => P.put k x (P.puts k x old)

theorem same_puts {j k : ℕ} (hj : j < k) (x old : β) : P.Same j (P.puts k x old) x := by
  induction k with
  | zero => exact absurd hj (Nat.not_lt_zero j)
  | succ k ih =>
    rcases Nat.lt_succ_iff_lt_or_eq.mp hj with hlt | rfl
    · exact P.same_of_ne hlt.ne (ih hlt)
    · exact P.same_put _ _ _

theorem puts_all (x old : β) : P.puts P.n x old = x :=
  P.eq_of_same fun _ hk => same_puts hk x old

theorem same_refl {k : ℕ} (hk : k < P.n) (x : β) : P.Same k x x := by
  have h := same_puts (P := P) hk x x
  rwa [puts_all] at h

end Parts

namespace Access

/-- The next part is written; after the last one the writer is done. -/
def write (P : Parts β) (c : Access β) : Access β :=
  { c with wrote := if c.wrote + 1 = P.n then 0 else c.wrote + 1 }

/-- The part `k` of `mem` is read. -/
def read (P : Parts β) (k : ℕ) (mem : β) (c : Access β) : Access β :=
  { c with seen := k :: c.seen, copy := P.put k mem c.copy }

/-- The value in `mem` for someone who takes `src` to be there as soon as its first part is. -/
def whole (c : Access β) (mem src : β) : β := if c.wrote = 0 then mem else src

/-- The reader is done with its copy. -/
def finish (c : Access β) : Access β := { c with seen := [] }

/-- The writer after the parts before `k`, where it starts with the first one. -/
def writes (P : Parts β) (k : ℕ) (c : Access β) : Access β :=
  { c with wrote := if k = P.n then 0 else k }

/-- The reader after the parts before `k`. -/
def reads (P : Parts β) (k : ℕ) (mem : β) (c : Access β) : Access β :=
  { c with seen := (List.range k).reverse, copy := P.puts k mem c.copy }

theorem write_writes {k : ℕ} (hk : k < P.n) (c : Access β) :
    (c.writes P k).write P = c.writes P (k + 1) := by
  simp only [write, writes, if_neg hk.ne]

theorem read_reads (k : ℕ) (mem : β) (c : Access β) :
    (c.reads P k mem).read P k mem = c.reads P (k + 1) mem := by
  simp [read, reads, Parts.puts, List.range_succ]

/-- The writer is writing `src` to `mem`: the parts that it has written are those of `src`, and
    those that have been read are still the parts of `mem`. -/
structure Coherent (P : Parts β) (c : Access β) (mem src : β) : Prop where
  lt : c.wrote < P.n
  written : ∀ k < c.wrote, P.Same k mem src
  read : ∀ k ∈ c.seen, P.Same k c.copy mem
  apart : c.wrote = 0 ∨ c.seen = []

namespace Coherent

variable {c : Access β} {mem src : β}

/-- Before the first part is written, the writer may be about to write anything. -/
theorem of_idle (h : c.Coherent P mem src) (hwrote : c.wrote = 0) (src' : β) :
    c.Coherent P mem src' where
  lt := h.lt
  written k hk := absurd hk (by omega)
  read := h.read
  apart := h.apart

theorem fresh (hwrote : c.wrote = 0) (hseen : c.seen = []) (mem src : β) :
    c.Coherent P mem src where
  lt := hwrote ▸ P.pos
  written k hk := absurd hk (by omega)
  read k hk := absurd hk (by simp [hseen])
  apart := .inl hwrote

theorem same_put (h : c.Coherent P mem src) {k : ℕ} (hk : k < c.wrote + 1) :
    P.Same k (P.put c.wrote src mem) src := by
  by_cases heq : k = c.wrote
  · rw [heq]
    exact P.same_put _ _ _
  · exact P.same_of_ne heq (h.written k (by omega))

/-- When the last part has been written the value is there. -/
theorem put_last (h : c.Coherent P mem src) (hlast : c.wrote + 1 = P.n) :
    P.put c.wrote src mem = src :=
  P.eq_of_same fun _ hk => h.same_put (hlast ▸ hk)

/-- After each part that is written, `src` is the value that is there. -/
theorem whole_write (h : c.Coherent P mem src) :
    (c.write P).whole (P.put c.wrote src mem) src = src := by
  by_cases hlast : c.wrote + 1 = P.n
  · exact (if_pos (if_pos hlast)).trans (h.put_last hlast)
  · refine if_neg ?_
    rw [show (c.write P).wrote = c.wrote + 1 from if_neg hlast]
    exact Nat.succ_ne_zero _

/-- A part is written while nobody reads. -/
theorem write (h : c.Coherent P mem src) (hseen : c.seen = []) :
    (c.write P).Coherent P (P.put c.wrote src mem) src := by
  have hread : ∀ k ∈ c.seen, P.Same k c.copy (P.put c.wrote src mem) := by simp [hseen]
  have hlt := h.lt
  by_cases hlast : c.wrote + 1 = P.n
  · have hwrote : (c.write P).wrote = 0 := if_pos hlast
    exact ⟨hwrote ▸ P.pos, fun k hk => absurd hk (by omega), hread, .inl hwrote⟩
  · have hwrote : (c.write P).wrote = c.wrote + 1 := if_neg hlast
    refine ⟨by omega, fun k hk => h.same_put (hwrote ▸ hk), hread, .inr hseen⟩

/-- A part is read while nobody writes. -/
theorem read_part (h : c.Coherent P mem src) (hwrote : c.wrote = 0) (k : ℕ) :
    (c.read P k mem).Coherent P mem src where
  lt := h.lt
  written := h.written
  read j hj := by
    by_cases heq : j = k
    · rw [heq]
      exact P.same_put _ _ _
    · exact P.same_of_ne heq (h.read j ((List.mem_cons.mp hj).resolve_left heq))
  apart := .inl hwrote

/-- Once all parts have been read the copy is the value in memory. -/
theorem copy_eq (h : c.Coherent P mem src) (hall : ∀ k < P.n, k ∈ c.seen) : c.copy = mem :=
  P.eq_of_same fun k hk => h.read k (hall k hk)

theorem idle_of_seen (h : c.Coherent P mem src) (hall : ∀ k < P.n, k ∈ c.seen) :
    c.wrote = 0 :=
  h.apart.resolve_right fun hnil => by simpa [hnil] using hall 0 P.pos

theorem finish (h : c.Coherent P mem src) : c.finish.Coherent P mem src where
  lt := h.lt
  written := h.written
  read _ hk := absurd hk List.not_mem_nil
  apart := .inr rfl

end Coherent

end Access

/-! ## Where the parts come from -/

namespace Parts

variable {S S' : β → Prop} {x y : β} {k : ℕ}

/-- The part `k` is that of a value of `S`. -/
def PartOf (P : Parts β) (S : β → Prop) (k : ℕ) (x : β) : Prop := ∃ y, S y ∧ P.Same k x y

/-- Each part is that of a value of `S`. -/
def Mixed (P : Parts β) (S : β → Prop) (x : β) : Prop := ∀ k < P.n, P.PartOf S k x

theorem PartOf.mono (h : P.PartOf S k x) (hS : ∀ y, S y → S' y) : P.PartOf S' k x :=
  h.imp fun y hy => ⟨hS y hy.1, hy.2⟩

theorem Mixed.mono (h : P.Mixed S x) (hS : ∀ y, S y → S' y) : P.Mixed S' x :=
  fun k hk => (h k hk).mono hS

/-- A part is written over. -/
theorem PartOf.put {j : ℕ} (hx : j = k → P.PartOf S k x) (hy : j ≠ k → P.PartOf S k y) :
    P.PartOf S k (P.put j x y) := by
  by_cases heq : j = k
  · obtain ⟨z, hz, hsame⟩ := hx heq
    exact ⟨z, hz, P.same_trans (heq ▸ P.same_put j x y) hsame⟩
  · obtain ⟨z, hz, hsame⟩ := hy heq
    exact ⟨z, hz, P.same_of_ne (Ne.symm heq) hsame⟩

theorem Mixed.put (hx : P.Mixed S x) (hy : P.Mixed S y) (j : ℕ) : P.Mixed S (P.put j x y) :=
  fun k hk => .put (fun _ => hx k hk) (fun _ => hy k hk)

theorem mixed_of_mem (hx : S x) : P.Mixed S x := fun _ hk => ⟨x, hx, same_refl hk x⟩

end Parts

/-- Each part in memory, of what has been read so far and of what has been read before is that
    of a value of `S`. -/
structure Access.Sourced (P : Parts β) (S : β → Prop) (c : Access β) (mem : β)
    (taken : List β) : Prop where
  mem : P.Mixed S mem
  copy : ∀ k < P.n, k ∈ c.seen → P.PartOf S k c.copy
  taken : ∀ x ∈ taken, P.Mixed S x

namespace Access.Sourced

variable {S S' : β → Prop} {c : Access β} {mem src : β} {taken : List β}

theorem mono (h : c.Sourced P S mem taken) (hS : ∀ y, S y → S' y) : c.Sourced P S' mem taken where
  mem := h.mem.mono hS
  copy k hk hseen := (h.copy k hk hseen).mono hS
  taken x hx := (h.taken x hx).mono hS

theorem write (h : c.Sourced P S mem taken) (hsrc : S src) (k : ℕ) :
    (c.write P).Sourced P S (P.put k src mem) taken where
  mem := (Parts.mixed_of_mem hsrc).put h.mem k
  copy := h.copy
  taken := h.taken

theorem read (h : c.Sourced P S mem taken) (k : ℕ) :
    (c.read P k mem).Sourced P S mem taken where
  mem := h.mem
  copy j hj hseen := .put (fun _ => h.mem j hj)
    (fun hne => h.copy j hj ((List.mem_cons.mp hseen).resolve_left (Ne.symm hne)))
  taken := h.taken

/-- The reader takes its copy once it has read all parts. -/
theorem finish (h : c.Sourced P S mem taken) (hall : ∀ k < P.n, k ∈ c.seen) :
    c.finish.Sourced P S mem (taken ++ [c.copy]) where
  mem := h.mem
  copy k hk hseen := absurd hseen List.not_mem_nil
  taken x hx := by
    rcases List.mem_append.mp hx with hx | hx
    · exact h.taken x hx
    · rw [List.mem_singleton.mp hx]
      exact fun k hk => h.copy k hk (hall k hk)

end Access.Sourced

end Apes
