import Apes.Animals.Lists

/-!
# Nodes that are made and freed

The invariant of the heap: the five lists are linked, their nodes are allocated and have
names, and no node is on two lists. Making a node adds a fresh one to one of the lists,
freeing a list empties it.
-/

namespace Apes.Animals

open Apes State

variable {s s' s'' : State} {L : Head → List ℕ} {head h : Head} {a : ℕ} {as new new' : List ℕ}

structure Holds (s : State) (L : Head → List ℕ) : Prop where
  list : ∀ h, IsList s h (L h)
  named : ∀ h, ∀ a ∈ L h, s.Named a
  disjoint : ∀ h h', h ≠ h' → ∀ a ∈ L h, a ∉ L h'

/-- From `s` to `s'` the nodes `new` have been allocated; what was allocated before is as it
    was. -/
structure Grown (s s' : State) (new : List ℕ) : Prop where
  kmallocs : s'.kmallocs = s.kmallocs ++ new
  kfrees : s'.kfrees = s.kfrees
  live : ∀ a, a ∈ s'.live ↔ a ∈ s.live ∨ a ∈ new
  fresh : ∀ a ∈ new, a ∉ s.live
  nodup : new.Nodup
  animals : ∀ a ∈ s.live, s'.animals a = s.animals a

namespace Grown

theorem refl (s : State) : Grown s s [] where
  kmallocs := (List.append_nil _).symm
  kfrees := rfl
  live a := by simp
  fresh a ha := absurd ha (by simp)
  nodup := List.nodup_nil
  animals _ _ := rfl

theorem trans (hg : Grown s s' new) (hg' : Grown s' s'' new') : Grown s s'' (new ++ new') where
  kmallocs := by rw [hg'.kmallocs, hg.kmallocs, List.append_assoc]
  kfrees := hg'.kfrees.trans hg.kfrees
  live a := by rw [hg'.live, hg.live, List.mem_append, or_assoc]
  fresh a ha hmem := by
    rcases List.mem_append.mp ha with ha | ha
    · exact hg.fresh a ha hmem
    · exact hg'.fresh a ha ((hg.live a).mpr (Or.inl hmem))
  nodup := by
    refine List.nodup_append.mpr ⟨hg.nodup, hg'.nodup, ?_⟩
    rintro a ha b hb rfl
    exact hg'.fresh a hb ((hg.live a).mpr (Or.inr ha))
  animals a ha := (hg'.animals a ((hg.live a).mpr (Or.inl ha))).trans (hg.animals a ha)

theorem contents_eq (hg : Grown s s' new) (has : ∀ a ∈ as, a ∈ s.live) :
    s'.contents as = s.contents as :=
  List.map_congr_left fun a ha => by rw [content, content, hg.animals a (has a ha)]

end Grown

/-! ## The counters -/

theorem Holds.withCounters (hs : Holds s L) (totalNodes : ℕ) (noNodes : Head → ℕ) :
    Holds { s with totalNodes, noNodes } L :=
  ⟨fun h => ⟨(hs.list h).ring, (hs.list h).live⟩, hs.named, hs.disjoint⟩

theorem Grown.withCounters (hg : Grown s s' new) (totalNodes : ℕ) (noNodes : Head → ℕ) :
    Grown s { s' with totalNodes, noNodes } new :=
  ⟨hg.kmallocs, hg.kfrees, hg.live, hg.fresh, hg.nodup, hg.animals⟩

/-! ## A new node -/

/-- The state with a new node at the address `a`, at the end of a list. -/
def addNode (s : State) (a : ℕ) (animal : Animal) (head : Head) : State :=
  { s with
    links := (s.links.init (.node a)).addTail (.node a) (.head head)
    animals := Function.update s.animals a animal
    live := insert a s.live
    kmallocs := s.kmallocs ++ [a] }

theorem grown_addNode {animal : Animal} (ha : a ∉ s.live) :
    Grown s (addNode s a animal head) [a] where
  kmallocs := rfl
  kfrees := rfl
  live b := by simp [addNode, or_comm]
  fresh b hb := by rwa [List.mem_singleton.mp hb]
  nodup := List.nodup_singleton a
  animals b hb := Function.update_of_ne (fun hba : b = a => ha (hba ▸ hb)) _ _

theorem mem_update_append {b : ℕ} :
    b ∈ Function.update L head (L head ++ [a]) h ↔ b ∈ L h ∨ h = head ∧ b = a := by
  by_cases hh : h = head
  · subst hh
    simp
  · simp [hh]

namespace Holds

theorem fresh_notMem (hs : Holds s L) (ha : a ∉ s.live) (h : Head) : a ∉ L h :=
  fun hmem => ha ((hs.list h).live a hmem)

theorem node_notMem (hs : Holds s L) (ha : a ∉ s.live) (h : Head) :
    Loc.node a ∉ Loc.head h :: (L h).map Loc.node := by
  simpa using hs.fresh_notMem ha h

/-- Two lists have no element in common. -/
theorem ring_disjoint (hs : Holds s L) (hne : h ≠ head) :
    ∀ z ∈ Loc.head h :: (L h).map Loc.node, z ∉ Loc.head head :: (L head).map Loc.node := by
  intro z hz
  rcases List.mem_cons.mp hz with rfl | hz
  · simpa using hne
  · obtain ⟨b, hb, rfl⟩ := List.mem_map.mp hz
    simpa using hs.disjoint h head hne b hb

theorem addNode (hs : Holds s L) {animal : Animal} (ha : a ∉ s.live)
    (hn : 0 ∈ animal.animalName) :
    Holds (addNode s a animal head) (Function.update L head (L head ++ [a])) where
  list h := by
    have hring : ∀ h, (s.links.init (.node a)).Ring (.head h) ((L h).map .node) :=
      fun h => (hs.list h).ring.init_of_ne (hs.node_notMem ha h)
    by_cases hh : h = head
    · subst hh
      rw [Function.update_self]
      refine ⟨?_, fun b hb => ?_⟩
      · rw [List.map_append]
        exact (hring h).addTail (hs.node_notMem ha h)
      · rcases List.mem_append.mp hb with hb | hb
        · exact Finset.mem_insert_of_mem ((hs.list h).live b hb)
        · rw [List.mem_singleton.mp hb]
          exact Finset.mem_insert_self _ _
    · rw [Function.update_of_ne hh]
      exact ⟨(hring head).addTail_of_disjoint (hring h) (hs.node_notMem ha h)
        (hs.ring_disjoint hh), fun b hb => Finset.mem_insert_of_mem ((hs.list h).live b hb)⟩
  named h b hb := by
    rcases mem_update_append.mp hb with hb | ⟨-, rfl⟩
    · have hba : b ≠ a := fun hba => hs.fresh_notMem ha h (hba ▸ hb)
      simpa [Named, Animals.addNode, hba] using hs.named h b hb
    · simpa [Named, Animals.addNode] using hn
  disjoint h h' hne b hb hb' := by
    rcases mem_update_append.mp hb with hb | ⟨hh, hba⟩
    · rcases mem_update_append.mp hb' with hb' | ⟨-, hba⟩
      · exact hs.disjoint h h' hne b hb hb'
      · exact hs.fresh_notMem ha h (hba ▸ hb)
    · rcases mem_update_append.mp hb' with hb' | ⟨hh', -⟩
      · exact hs.fresh_notMem ha h' (hba ▸ hb')
      · exact hne (hh.trans hh'.symm)

/-- The statements that make a node do not fail. -/
theorem newNode_spec (hs : Holds s L) (k : Kernel) (name : Row 15) (count : ℕ) (head : Head) :
    ∃ s' a, newNode k name count head s = .ok s' ∧
      Holds s' (Function.update L head (L head ++ [a])) ∧ Grown s s' [a] ∧
      s'.content a = (name.str, count) ∧ s'.totalNodes = s.totalNodes ∧ s'.noNodes = s.noNodes := by
  let a := k.place s.live
  have ha : a ∉ s.live := k.fresh s.live
  -- the states after `kmalloc`, after the two assignments, and after `INIT_LIST_HEAD`
  let s₁ := (s.kmalloc k).2
  let animal := s₁.filledIn a name count
  let s₂ : State := { s₁ with animals := Function.update s₁.animals a animal }
  let s₃ : State := { s₂ with links := s₂.links.init (.node a) }
  have halive : a ∈ s₁.live := Finset.mem_insert_self _ _
  have hprev : s₃.Alive (s₃.links.prev (.head head)) := by
    have hsame : s₃.links.prev (.head head) = s.links.prev (.head head) := by
      simp [s₃, s₂, s₁, kmalloc, Links.init]
    rw [hsame]
    exact ((hs.list head).alive (hs.list head).ring.prev_mem).mono (Finset.subset_insert _ _)
  have hrun : newNode k name count head s = .ok (Animals.addNode s a animal head) :=
    calc
      newNode k name count head s
        = (s₁.setName a name >>= fun t => t.setCount a count) >>= fun t =>
            t.initListHead (.node a) >>= fun t => t.listAddTail (.node a) (.head head) := by
          rw [bind_assoc]
          rfl
      _ = (s₂.initListHead (.node a) >>= fun t => t.listAddTail (.node a) (.head head)) := by
          rw [setName_setCount_ok halive]
          rfl
      _ = s₃.listAddTail (.node a) (.head head) := by
          rw [initListHead_ok (s := s₂) (l := .node a) halive]
          rfl
      _ = .ok (Animals.addNode s a animal head) := by
          rw [listAddTail_ok (s := s₃) (l := .node a) halive hprev]
          simp [Animals.addNode, s₃, s₂, s₁, kmalloc, a]
  refine ⟨_, a, hrun, hs.addNode ha (Row.terminated _), grown_addNode ha, ?_, rfl, rfl⟩
  simp [content, Animals.addNode, animal, filledIn, Animal.copyName, Row.copy, str_strcpy, Row.str]

end Holds

/-! ## Nodes that are freed -/

/-- From `s` to `s'` the nodes `gone` have been freed, and nothing else has changed but the
    links. -/
structure Freed (s s' : State) (gone : List ℕ) : Prop where
  kmallocs : s'.kmallocs = s.kmallocs
  kfrees : s'.kfrees = s.kfrees ++ gone
  live : ∀ a, a ∈ s'.live ↔ a ∈ s.live ∧ a ∉ gone
  animals : s'.animals = s.animals
  totalNodes : s'.totalNodes = s.totalNodes

theorem Freed.refl (s : State) : Freed s s [] where
  kmallocs := rfl
  kfrees := (List.append_nil _).symm
  live a := by simp
  animals := rfl
  totalNodes := rfl

theorem Freed.trans {gone gone' : List ℕ} (hf : Freed s s' gone) (hf' : Freed s' s'' gone') :
    Freed s s'' (gone ++ gone') where
  kmallocs := hf'.kmallocs.trans hf.kmallocs
  kfrees := by rw [hf'.kfrees, hf.kfrees, List.append_assoc]
  live a := by rw [hf'.live, hf.live, List.mem_append, not_or, and_assoc]
  animals := hf'.animals.trans hf.animals
  totalNodes := hf'.totalNodes.trans hf.totalNodes

/-- The state after `list_del` and `kfree` of a node. -/
def removeNode (s : State) (a : ℕ) : State :=
  { s with
    links := s.links.del (.node a) .poison1 .poison2
    live := s.live.erase a
    kfrees := s.kfrees ++ [a] }

theorem freed_removeNode (s : State) (a : ℕ) : Freed s (removeNode s a) [a] where
  kmallocs := rfl
  kfrees := rfl
  live b := by simp [removeNode, and_comm]
  animals := rfl
  totalNodes := rfl

theorem mem_of_mem_update {rest : List ℕ} {b : ℕ} (hL : L head = a :: rest)
    (hb : b ∈ Function.update L head rest h) : b ∈ L h := by
  by_cases hh : h = head
  · subst hh
    rw [Function.update_self] at hb
    rw [hL]
    exact List.mem_cons_of_mem _ hb
  · rwa [Function.update_of_ne hh] at hb

namespace Holds

variable {rest : List ℕ}

/-- The first node of a list is taken out of it and freed. -/
theorem removeNode (hs : Holds s L) (hL : L head = a :: rest) :
    Holds (removeNode s a) (Function.update L head rest) where
  list h := by
    have hlist := hs.list head
    have hring := hlist.ring
    rw [hL] at hlist
    rw [hL, List.map_cons] at hring
    by_cases hh : h = head
    · subst hh
      rw [Function.update_self]
      refine ⟨hring.del_first, fun b hb => Finset.mem_erase.mpr ⟨?_, ?_⟩⟩
      · rintro rfl
        exact (List.nodup_cons.mp hlist.nodup).1 hb
      · exact hlist.live b (List.mem_cons_of_mem _ hb)
    · rw [Function.update_of_ne hh]
      have hdisj := hs.ring_disjoint hh
      rw [hL, List.map_cons] at hdisj
      refine ⟨hring.del_of_disjoint (hs.list h).ring hdisj, fun b hb => ?_⟩
      refine Finset.mem_erase.mpr ⟨?_, (hs.list h).live b hb⟩
      rintro rfl
      exact hs.disjoint h head hh b hb (by simp [hL])
  named h b hb := hs.named h b (mem_of_mem_update hL hb)
  disjoint h h' hne b hb hb' :=
    hs.disjoint h h' hne b (mem_of_mem_update hL hb) (mem_of_mem_update hL hb')

/-- The statements that free the first node of a list do not fail. -/
theorem freeNode_spec (hs : Holds s L) (hL : L head = a :: rest) :
    (do
      let s ← printNode s a
      let s ← s.listDel (.node a)
      s.kfree a) = .ok (Animals.removeNode s a) := by
  have hlist := hs.list head
  rw [hL] at hlist
  have hring := hlist.ring
  have ha : a ∈ s.live := hlist.live a List.mem_cons_self
  have hprev : s.Alive (s.links.prev (.node a)) := by
    rw [hring.path.1.2]
    trivial
  have hnext : s.Alive (s.links.next (.node a)) := by
    rw [hring.path.2.next_eq]
    refine hlist.alive ?_
    cases rest <;> simp
  rw [printNode_ok ha (hs.named head a (by simp [hL]))]
  show (s.listDel (.node a) >>= fun s => s.kfree a) = _
  rw [listDel_ok (l := .node a) ha hprev hnext]
  exact kfree_ok ha

end Holds

/-- From `s` to `t` the nodes `done` of the list `head` have been freed, and the rest of them
    are still in the list. -/
structure Freeing (s : State) (L : Head → List ℕ) (head : Head) (done : List ℕ) (t : State) :
    Prop where
  freed : Freed s t done
  holds : ∀ rest, L head = done ++ rest → Holds t (Function.update L head rest)

namespace Freeing

variable {t : State} {done : List ℕ}

theorem start (hs : Holds s L) (head : Head) : Freeing s L head [] s where
  freed := Freed.refl s
  holds := by
    rintro rest rfl
    rwa [Function.update_eq_self]

/-- The body of the loop frees the first of the rest. -/
theorem step (h : Freeing s L head done t) (hL : L head = done ++ a :: rest) :
    Freeing s L head (done ++ [a]) (removeNode t a) where
  freed := h.freed.trans (freed_removeNode t a)
  holds rest' hL' := by
    obtain rfl : rest' = rest := by simpa [hL'] using hL
    simpa using (h.holds _ hL).removeNode (Function.update_self ..)

end Freeing

/-- The loop that frees a list frees each of its nodes once, in their order. -/
theorem Holds.freeNodes_spec (hs : Holds s L) (head : Head) :
    ∃ s', freeNodes head s = .ok s' ∧ Holds s' (Function.update L head []) ∧
      Freed s s' (L head) := by
  obtain ⟨s', hs', h⟩ : ∃ s', freeNodes head s = .ok s' ∧ Freeing s L head (L head) s' := by
    refine listForEachEntrySafe_spec (fun done rest t has ht => ?_) (fun done a rest t has ht => ?_)
      (Freeing.start hs head)
    · simpa using (ht.holds rest has).list head
    · exact ⟨_, (ht.holds _ has).freeNode_spec (Function.update_self ..), ht.step has⟩
  exact ⟨s', hs', h.holds [] (List.append_nil _).symm, h.freed⟩

end Apes.Animals
