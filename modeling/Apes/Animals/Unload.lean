import Apes.Animals.Load

/-!
# Unloading the module

`rmmod` frees the nodes of both sets, each of them once, and leaves the lists empty. The
block that `new_node` is initialised with when the module is loaded is on none of the lists
and is never freed.
-/

namespace Apes.Animals

open Apes State

variable {n : ℕ} {k : Kernel} {p : Input n} {s s₁ s' : State} {leaked : ℕ} {root new : List ℕ}

/-- Whatever the parameters are, the two lists with nodes are freed. -/
theorem animalEcosystemEnd_eq (p : Input n) (s : State) :
    animalEcosystemEnd p s = (freeNodes .root s >>= freeNodes p.chosen) :=
  bind_congr fun t => p.nested_eq freeNodes t

theorem rmmod_spec (h : Loaded k p s s₁ s' leaked root new) :
    ∃ s'', rmmod p s' = .ok s'' ∧ Holds s'' (fun _ => []) ∧ Freed s' s'' (root ++ new) := by
  obtain ⟨t, hroot, hholds, hfreed⟩ := h.holds.freeNodes_spec .root
  obtain ⟨s'', hchosen, hholds', hfreed'⟩ := hholds.freeNodes_spec p.chosen
  have hlists : Function.update (Function.update (lists p root new) .root []) p.chosen [] =
      fun _ => [] := by
    funext h
    by_cases hh : h = p.chosen
    · rw [hh, Function.update_self]
    · rw [Function.update_of_ne hh]
      by_cases hr : h = .root
      · rw [hr, Function.update_self]
      · rw [Function.update_of_ne hr, lists_of_ne hr hh]
  have hgone : lists p root new .root ++ Function.update (lists p root new) .root [] p.chosen =
      root ++ new := by
    rw [Function.update_of_ne p.chosen_ne_root, lists_root, lists_chosen]
  refine ⟨s'', ?_, hlists ▸ hholds', hgone ▸ hfreed.trans hfreed'⟩
  rw [rmmod, animalEcosystemEnd_eq, hroot]
  exact hchosen

/-- `rmmod` frees every node of the two sets once and leaves the five lists empty. -/
theorem unload_frees (k : Kernel) (p : Input n) (s : State) :
    ∃ s' s'' root new, insmod k p s = .ok s' ∧ (∀ h, IsList s' h (lists p root new h)) ∧
      rmmod p s' = .ok s'' ∧ s''.kfrees = s'.kfrees ++ (root ++ new) ∧ (root ++ new).Nodup ∧
      (∀ h, IsList s'' h []) ∧ s''.totalNodes = (root ++ new).length := by
  obtain ⟨s₁, s', leaked, root, new, h⟩ := insmod_spec k p s
  obtain ⟨s'', hrun, hholds, hfreed⟩ := rmmod_spec h
  refine ⟨s', s'', root, new, h.run, h.holds.list, hrun, hfreed.kfrees,
    (List.nodup_cons.mp h.grown.nodup).2, hholds.list, ?_⟩
  rw [hfreed.totalNodes, h.totalNodes, List.length_append]

/-! ## The accounts of the heap -/

/-- From `s` to `s'` every block that is allocated can be reached from one of the heads, and
    from no other. -/
def AllListed (s s' : State) : Prop :=
  ∀ a ∈ s'.kmallocs.drop s.kmallocs.length, ∃! h, s'.links.Reaches (.head h) (.node a)

/-- From `s` to `s'` as many blocks are allocated as `total_nodes` says. -/
def Counted (s s' : State) : Prop := s'.kmallocs.length = s.kmallocs.length + s'.totalNodes

/-- The module is loaded and unloaded `m` times. -/
def cycles (k : Kernel) (p : Input n) : ℕ → State → Except Fault State
  | 0, s => .ok s
  | m + 1, s => do
    let s ← insmod k p s
    let s ← rmmod p s
    cycles k p m s

/-- After `m` rounds the same blocks are allocated as before. -/
def Kept (k : Kernel) (p : Input n) (m : ℕ) (s : State) : Prop :=
  ∃ s', cycles k p m s = .ok s' ∧ s'.live = s.live

/-- The accounts balance. -/
def Accounted (k : Kernel) (p : Input n) (s : State) : Prop :=
  ∃ s', insmod k p s = .ok s' ∧ AllListed s s' ∧ Counted s s' ∧ ∀ m, Kept k p m s

/-- What `s'` has allocated more than `s`. -/
theorem Loaded.kmallocs_drop (h : Loaded k p s s₁ s' leaked root new) :
    s'.kmallocs.drop s.kmallocs.length = leaked :: (root ++ new) := by
  rw [h.grown.kmallocs, List.drop_left]

/-- The node that `new_node` is initialised with is on no list. -/
theorem Loaded.not_reaches_leaked (h : Loaded k p s s₁ s' leaked root new) (head : Head) :
    ¬ s'.links.Reaches (.head head) (.node leaked) := by
  rw [(h.holds.list head).reaches_iff, mem_lists]
  have hnot : leaked ∉ root ++ new := (List.nodup_cons.mp h.grown.nodup).1
  rintro (⟨-, ha⟩ | ⟨-, ha⟩)
  · exact hnot (List.mem_append_left _ ha)
  · exact hnot (List.mem_append_right _ ha)

/-- The other nodes are on one list each. -/
theorem Loaded.existsUnique_reaches (h : Loaded k p s s₁ s' leaked root new) {a : ℕ}
    (ha : a ∈ root ++ new) : ∃! head, s'.links.Reaches (.head head) (.node a) := by
  obtain ⟨head, hmem⟩ : ∃ head, a ∈ lists p root new head := by
    rcases List.mem_append.mp ha with ha | ha
    · exact ⟨.root, by rwa [lists_root]⟩
    · exact ⟨p.chosen, by rwa [lists_chosen]⟩
  refine ⟨head, (h.holds.list head).reaches_iff.mpr hmem, fun head' hreach => ?_⟩
  by_contra hne
  exact h.holds.disjoint head' head hne a ((h.holds.list head').reaches_iff.mp hreach) hmem

/-- Of the blocks that `insmod` allocates, one is lost, and `total_nodes` is the number of the
    others. -/
theorem insmod_leaks (k : Kernel) (p : Input n) (s : State) :
    ∃ s' leaked nodes, insmod k p s = .ok s' ∧
      s'.kmallocs.drop s.kmallocs.length = leaked :: nodes ∧
      (∀ head, ¬ s'.links.Reaches (.head head) (.node leaked)) ∧
      (∀ a ∈ nodes, ∃! head, s'.links.Reaches (.head head) (.node a)) ∧
      s'.kmallocs.length = s.kmallocs.length + s'.totalNodes + 1 := by
  obtain ⟨s₁, s', leaked, root, new, h⟩ := insmod_spec k p s
  refine ⟨s', leaked, root ++ new, h.run, h.kmallocs_drop, h.not_reaches_leaked,
    fun a => h.existsUnique_reaches, ?_⟩
  simp only [h.grown.kmallocs, h.totalNodes, List.length_append, List.length_cons]
  omega

/-- One round adds the lost block to what is allocated. -/
theorem cycle_spec (k : Kernel) (p : Input n) (s : State) :
    ∃ s' s'' leaked, insmod k p s = .ok s' ∧ rmmod p s' = .ok s'' ∧ leaked ∉ s.live ∧
      s''.live = insert leaked s.live := by
  obtain ⟨s₁, s', leaked, root, new, h⟩ := insmod_spec k p s
  obtain ⟨s'', hrun, -, hfreed⟩ := rmmod_spec h
  refine ⟨s', s'', leaked, h.run, hrun, h.grown.fresh leaked List.mem_cons_self, ?_⟩
  ext a
  rw [hfreed.live, h.grown.live, List.mem_cons, Finset.mem_insert]
  have hleaked : leaked ∉ root ++ new := (List.nodup_cons.mp h.grown.nodup).1
  have hfresh : a ∈ root ++ new → a ∉ s.live := fun ha =>
    h.grown.fresh a (List.mem_cons_of_mem _ ha)
  constructor
  · rintro ⟨ha | ha | ha, hnot⟩
    · exact Or.inr ha
    · exact Or.inl ha
    · exact absurd ha hnot
  · rintro (rfl | ha)
    · exact ⟨Or.inr (Or.inl rfl), hleaked⟩
    · exact ⟨Or.inl ha, fun hmem => hfresh hmem ha⟩

/-- After `m` rounds `m` more blocks are allocated. -/
theorem cycles_spec (k : Kernel) (p : Input n) (m : ℕ) (s : State) :
    ∃ s', cycles k p m s = .ok s' ∧ s'.live.card = s.live.card + m := by
  induction m generalizing s with
  | zero => exact ⟨s, rfl, rfl⟩
  | succ m ih =>
    obtain ⟨s₁, s₂, leaked, hload, hunload, hfresh, hlive⟩ := cycle_spec k p s
    obtain ⟨s', hrun, hcard⟩ := ih s₂
    refine ⟨s', ?_, ?_⟩
    · simp only [cycles, bind, Except.bind, hload, hunload]
      exact hrun
    · rw [hcard, hlive, Finset.card_insert_of_notMem hfresh]
      omega

/-- The accounts never balance: one block is on no list and is not counted, and it stays
    allocated in every round. -/
theorem never_accounted (k : Kernel) (p : Input n) (s : State) :
    ∃ s', insmod k p s = .ok s' ∧ ¬ AllListed s s' ∧ ¬ Counted s s' ∧
      ∀ m, Kept k p m s ↔ m = 0 := by
  obtain ⟨s', leaked, nodes, hrun, hdrop, hlost, -, hcount⟩ := insmod_leaks k p s
  refine ⟨s', hrun, fun hall => ?_, fun hcounted => ?_, fun m => ⟨?_, ?_⟩⟩
  · obtain ⟨head, hreach, -⟩ := hall leaked (hdrop ▸ List.mem_cons_self)
    exact hlost head hreach
  · unfold Counted at hcounted
    omega
  · rintro ⟨t, ht, hlive⟩
    obtain ⟨t', ht', hcard⟩ := cycles_spec k p m s
    obtain rfl : t = t' := Except.ok.inj (ht.symm.trans ht')
    rw [hlive] at hcard
    omega
  · rintro rfl
    exact ⟨s, rfl, rfl⟩

/-- A kernel that hands out the first free block, filled with zeros. -/
def zeroed : Kernel := { MySort.firstFree with junk := fun _ => ⟨List.replicate 15 0, rfl, 0⟩ }

/-- Nothing is allocated. -/
def booted : State :=
  ⟨⟨id, id⟩, fun _ => ⟨List.replicate 15 0, rfl, 0⟩, ∅, [], [], 0, fun _ => 0⟩

/-- The table of the module, and no parameters. -/
def plain : Input 50 := ⟨⟨namesT, List.replicate 15 0, rfl⟩, 0, none⟩

/-- The module allocates 71 blocks and reports 70. -/
theorem unaccounted_plain : ∃ s', insmod zeroed plain booted = .ok s' ∧
    s'.kmallocs.length = 71 ∧ s'.totalNodes = 70 ∧ ¬ Accounted zeroed plain booted := by
  obtain ⟨s₁, s', leaked, root, new, h⟩ := insmod_spec zeroed plain booted
  have hroot : root.length = 35 := by
    have hdistinct : (Sorting.strings plain.table.names).toList.dedup.length = 35 := by
      decide +kernel
    have hperm := h.census.perm_of_nodup (List.nodup_dedup _) fun _ => List.mem_dedup
    rw [← hdistinct]
    simpa [contents] using hperm.length_eq
  have hnew : new.length = 35 := by
    have hall : s'.contents new = s'.contents root := by
      rw [h.selected, List.filter_eq_self]
      intro e _
      simp [Input.Selects, plain]
    rw [← hroot]
    simpa [contents] using congrArg List.length hall
  have hkmallocs : s'.kmallocs.length = 71 := by simp [h.grown.kmallocs, booted, hroot, hnew]
  have htotal : s'.totalNodes = 70 := by rw [h.totalNodes, hroot, hnew]
  refine ⟨s', h.run, hkmallocs, htotal, ?_⟩
  rintro ⟨t, ht, -, hcounted, -⟩
  obtain rfl : t = s' := Except.ok.inj (ht.symm.trans h.run)
  rw [Counted, hkmallocs, htotal] at hcounted
  exact absurd hcounted (by decide)

end Apes.Animals
