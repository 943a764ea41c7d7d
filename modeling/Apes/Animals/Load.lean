import Apes.Animals.Sets

/-!
# Loading the module

`insmod` does not fail. Set 1 has a node for every name of the table, in ascending order and
with the number of its occurrences; set 2 has a copy of every node of set 1 that passes the
filters that are set.
-/

namespace Apes.Animals

open Apes State

variable {n : ℕ} {k : Kernel} {p : Input n} {s s₁ s' : State} {leaked : ℕ} {root new : List ℕ}

/-- The node that `new_node` is initialised with. -/
theorem grown_kmalloc (k : Kernel) (s : State) :
    Grown s (s.loaded.kmalloc k).2 [k.place s.live] where
  kmallocs := rfl
  kfrees := rfl
  live a := by simp [State.kmalloc, State.loaded, or_comm]
  fresh a ha := by
    rw [List.mem_singleton.mp ha]
    exact k.fresh s.live
  nodup := List.nodup_singleton _
  animals a ha := by
    have hne : a ≠ k.place s.live := fun h => k.fresh s.live (h ▸ ha)
    exact Function.update_of_ne hne _ _

/-- The state `s'` after the module has been loaded in the state `s`. In the state `s₁` set 1
    is complete and set 2 is not begun. -/
structure Loaded (k : Kernel) (p : Input n) (s s₁ s' : State) (leaked : ℕ)
    (root new : List ℕ) : Prop where
  set1_run : set1 k p.table.sort.names (s.loaded.kmalloc k).2 = .ok s₁
  run : insmod k p s = .ok s'
  set1_holds : Holds s₁ (onlyRoot root)
  holds : Holds s' (lists p root new)
  set1_grown : Grown s s₁ (leaked :: root)
  set2_grown : Grown s₁ s' new
  grouped : s'.contents root = groups (Sorting.strings p.table.sort.names).toList
  selected : s'.contents new = (s'.contents root).filter fun e => p.Selects e
  noNodes_root : s'.noNodes .root = root.length
  totalNodes : s'.totalNodes = root.length + new.length

/-- The names are sorted before they are grouped. -/
theorem census_sort (table : Sorting 15 n) :
    Census (Sorting.strings table.names).toList
      (groups (Sorting.strings table.sort.names).toList) := by
  rw [Sorting.strings_sort]
  have hperm : (ExchangeSort.sort (Sorting.strings table.names)).toList.Perm
      (Sorting.strings table.names).toList :=
    Vector.Perm.toList (ExchangeSort.sort_perm _)
  exact (groups_census (ExchangeSort.sort_sorted _)).of_perm hperm

theorem insmod_spec (k : Kernel) (p : Input n) (s : State) :
    ∃ s₁ s' leaked root new, Loaded k p s s₁ s' leaked root new := by
  obtain ⟨s₁, root, hset1, hholds₁, hgrown₁, hcontents, htotal₁, hno₁⟩ :=
    set1_spec k p.table.sort.names (s.loaded.kmalloc k).2
  obtain ⟨s₂, new, hset2, hholds₂, hgrown₂, hselected, htotal₂, hno₂⟩ := set2_spec k p hholds₁
  have hroot : s₂.contents root = s₁.contents root := by
    refine hgrown₂.contents_eq fun a ha => (hholds₁.list .root).live a ?_
    rwa [onlyRoot_root]
  -- the counters were zero when the module was loaded
  have hnew : s₂.noNodes p.chosen = new.length := by
    rw [hno₂, Function.update_self, hno₁, Function.update_of_ne p.chosen_ne_root]
    exact Nat.zero_add _
  have hnodes : s₂.noNodes .root = root.length := by
    rw [hno₂, Function.update_of_ne p.chosen_ne_root.symm, hno₁, Function.update_self]
    exact Nat.zero_add _
  have htotal : s₂.totalNodes = 0 := htotal₂.trans htotal₁
  have hrun : insmod k p s = .ok { s₂ with totalNodes := root.length + new.length } := by
    simp only [insmod, animalEcosystemStart, bind, Except.bind]
    rw [show set1 k p.table.sort.names (s.loaded.kmalloc k).2 = .ok s₁ from hset1]
    simp only [hset2, totals_eq, htotal, hnodes, hnew, Nat.zero_add]
  refine ⟨s₁, _, k.place s.live, root, new, hset1, hrun, hholds₁, hholds₂.withCounters _ _,
    (grown_kmalloc k s).trans hgrown₁, hgrown₂.withCounters _ _, ?_, ?_, hnodes, rfl⟩
  · exact hroot.trans hcontents
  · rw [← hroot] at hselected
    exact hselected

theorem Loaded.census (h : Loaded k p s s₁ s' leaked root new) :
    Census (Sorting.strings p.table.names).toList (s'.contents root) := by
  rw [h.grouped]
  exact census_sort p.table

theorem Loaded.isList_root (h : Loaded k p s s₁ s' leaked root new) : IsList s' .root root := by
  have hlist := h.holds.list .root
  rwa [lists_root] at hlist

theorem Loaded.isList_chosen (h : Loaded k p s s₁ s' leaked root new) :
    IsList s' p.chosen new := by
  have hlist := h.holds.list p.chosen
  rwa [lists_chosen] at hlist

theorem Loaded.grown (h : Loaded k p s s₁ s' leaked root new) :
    Grown s s' (leaked :: (root ++ new)) :=
  h.set1_grown.trans h.set2_grown

/-! ## Set 1 -/

/-- Set 1 has one node for every name of the table, in strictly ascending order and with the
    number of its occurrences, and `no_nodes` is the number of the nodes. -/
theorem set1_census (k : Kernel) (p : Input n) (s : State) :
    ∃ s' root, insmod k p s = .ok s' ∧ IsList s' .root root ∧ (∀ a ∈ root, s'.Named a) ∧
      (root.Pairwise fun a b =>
        strcmp (s'.animals a).animalName (s'.animals b).animalName < 0) ∧
      Census (Sorting.strings p.table.names).toList (s'.contents root) ∧
      ((s'.contents root).map Prod.snd).sum = n ∧ s'.noNodes .root = root.length := by
  obtain ⟨s₁, s', leaked, root, new, h⟩ := insmod_spec k p s
  have hnamed : ∀ a ∈ root, s'.Named a := by
    intro a ha
    refine h.holds.named .root a ?_
    rwa [lists_root]
  refine ⟨s', root, h.run, h.isList_root, hnamed, ?_, h.census, ?_, h.noNodes_root⟩
  · have hordered := h.census.ordered
    rw [contents, List.map_map, List.pairwise_map] at hordered
    refine hordered.imp_of_mem fun {a b} ha hb hlt => ?_
    exact (strcmp_neg_iff (hnamed a ha) (hnamed b hb)).mpr hlt
  · rw [h.census.sum_eq_length, Vector.length_toList]

/-! ## Set 2 -/

/-- The module can be loaded, and the chosen list of set 2 then has the contents `es`. -/
def Selection (k : Kernel) (p : Input n) (s : State) (es : List (List ℕ × ℕ)) : Prop :=
  ∃ s' new, insmod k p s = .ok s' ∧ IsList s' p.chosen new ∧ s'.contents new = es

theorem Loaded.contents_new (h : Loaded k p s s₁ s' leaked root new) : s'.contents new =
    (groups (Sorting.strings p.table.sort.names).toList).filter fun e => p.Selects e := by
  rw [h.selected, h.grouped]

theorem selection_spec (k : Kernel) (p : Input n) (s : State) : Selection k p s
    ((groups (Sorting.strings p.table.sort.names).toList).filter fun e => p.Selects e) := by
  obtain ⟨s₁, s', leaked, root, new, h⟩ := insmod_spec k p s
  exact ⟨s', new, h.run, h.isList_chosen, h.contents_new⟩

/-- A `find_count` of zero lets every count pass, as every count reaches it. -/
theorem Input.selects_iff (p : Input n) (e : List ℕ × ℕ) : p.Selects e ↔
    p.findCount ≤ e.2 ∧ ∀ wanted, p.animalFindName = some wanted → e.1 = wanted.str := by
  have hcount : p.findCount = 0 ∨ p.findCount ≤ e.2 ↔ p.findCount ≤ e.2 := by
    refine or_iff_right_of_imp fun hc => ?_
    rw [hc]
    exact Int.natCast_nonneg _
  rw [Input.Selects, hcount]
  cases p.animalFindName <;> simp [eq_comm]

/-- Set 2 is one list: the nodes of set 1 that pass the filters, copied to fresh nodes in
    their order. Where a name is wanted, the names and counts are those that loading the module
    with one of the two filters leaves, filtered by the other one. -/
theorem set2_selects (k : Kernel) (p : Input n) (s : State) :
    ∃ s₁ s' root new, set1 k p.table.sort.names (s.loaded.kmalloc k).2 = .ok s₁ ∧
      insmod k p s = .ok s' ∧ IsList s₁ .root root ∧ (∀ h, IsList s' h (lists p root new h)) ∧
      (∀ a ∈ root, s'.animals a = s₁.animals a) ∧ new.Nodup ∧ (∀ a ∈ new, a ∉ s₁.live) ∧
      s'.contents new = (s'.contents root).filter (fun e => p.Selects e) ∧
      ∀ k' t wanted, p.animalFindName = some wanted →
        (∃ es, Selection k' { p with animalFindName := none } t es ∧
          s'.contents new = es.filter fun e => e.1 = wanted.str) ∧
        ∃ es, Selection k' { p with findCount := 0 } t es ∧
          s'.contents new = es.filter fun e => p.findCount ≤ e.2 := by
  obtain ⟨s₁, s', leaked, root, new, h⟩ := insmod_spec k p s
  have hroot : IsList s₁ .root root := by
    have hlist := h.set1_holds.list .root
    rwa [onlyRoot_root] at hlist
  refine ⟨s₁, s', root, new, h.set1_run, h.run, hroot, h.holds.list, ?_, h.set2_grown.nodup,
    h.set2_grown.fresh, h.selected, fun k' t wanted hw => ⟨⟨_, selection_spec k' _ t, ?_⟩,
      _, selection_spec k' _ t, ?_⟩⟩
  · exact fun a ha => h.set2_grown.animals a (hroot.live a ha)
  · rw [h.contents_new, List.filter_filter]
    refine List.filter_congr fun e _ => ?_
    simpa [Input.selects_iff, hw] using Bool.and_comm _ _
  · rw [h.contents_new, List.filter_filter]
    refine List.filter_congr fun e _ => ?_
    simp [Input.selects_iff, hw]

end Apes.Animals
