import Apes.Animals.Ecosystem
import Mathlib.Data.Finset.Card

/-!
# The lists in the kernel memory

Which nodes the five lists have, what the operations on them do, and the rules for the
loops over a list: a loop ends without a fault where its body keeps the nodes that are
still to come linked and allocated.
-/

namespace Apes.Animals

open Apes State

variable {s s' : State} {L : Head → List ℕ} {h : Head} {l : Loc} {a : ℕ} {as : List ℕ}

namespace State

/-! ## Accesses that succeed -/

theorem Alive.mono (hl : s.Alive l) (hsub : s.live ⊆ s'.live) : s'.Alive l := by
  cases l with
  | node a => exact hsub hl
  | _ => exact hl

theorem check_ok (hl : s.Alive l) : s.check l = .ok () := if_pos hl

theorem next_ok (hl : s.Alive l) : s.next l = .ok (s.links.next l) := by
  rw [State.next, check_ok hl]
  rfl

theorem initListHead_ok (hl : s.Alive l) :
    s.initListHead l = .ok { s with links := s.links.init l } := by
  rw [initListHead, check_ok hl]
  rfl

theorem listAddTail_ok (hl : s.Alive l) (hp : s.Alive (s.links.prev (.head h))) :
    s.listAddTail l (.head h) = .ok { s with links := s.links.addTail l (.head h) } := by
  rw [listAddTail, check_ok (l := .head h) trivial, check_ok hl, check_ok hp]
  rfl

theorem listDel_ok (hl : s.Alive l) (hp : s.Alive (s.links.prev l))
    (hn : s.Alive (s.links.next l)) :
    s.listDel l = .ok { s with links := s.links.del l .poison1 .poison2 } := by
  rw [listDel, check_ok hl, check_ok hp, check_ok hn]
  rfl

theorem kfree_ok (ha : a ∈ s.live) :
    s.kfree a = .ok { s with live := s.live.erase a, kfrees := s.kfrees ++ [a] } := by
  rw [State.kfree, check_ok (l := .node a) ha]
  rfl

/-- What a node holds once its name and its count are set. -/
def filledIn (s : State) (a : ℕ) (name : Row 15) (count : ℕ) : Animal :=
  { (s.animals a).copyName name with count := count }

theorem setName_setCount_ok (ha : a ∈ s.live) (name : Row 15) (count : ℕ) :
    (s.setName a name >>= fun s => s.setCount a count) =
      .ok { s with animals := Function.update s.animals a (s.filledIn a name count) } := by
  simp [setName, setCount, check, Alive, ha, bind, Except.bind, filledIn]

/-- The name and the count of a node. -/
def content (s : State) (a : ℕ) : List ℕ × ℕ := (str (s.animals a).animalName, (s.animals a).count)

def contents (s : State) (as : List ℕ) : List (List ℕ × ℕ) := as.map s.content

/-- The name of the node is a string. -/
def Named (s : State) (a : ℕ) : Prop := 0 ∈ (s.animals a).animalName

theorem animalName_ok (ha : a ∈ s.live) (hn : s.Named a) :
    ∃ name, s.animalName a = .ok name ∧ name.str = (s.content a).1 := by
  refine ⟨⟨_, (s.animals a).animalName_length, hn⟩, ?_, rfl⟩
  rw [State.animalName, check_ok (l := .node a) ha]
  exact dif_pos hn

theorem count_ok (ha : a ∈ s.live) : s.count a = .ok (s.content a).2 := by
  rw [State.count, check_ok (l := .node a) ha]
  rfl

end State

theorem printNode_ok (ha : a ∈ s.live) (hn : s.Named a) : printNode s a = .ok s := by
  obtain ⟨name, hname, -⟩ := animalName_ok ha hn
  rw [printNode, hname, count_ok ha]
  rfl

/-! ## Lists -/

/-- The list with the head `h` has the nodes `as`, all of them allocated. -/
structure IsList (s : State) (h : Head) (as : List ℕ) : Prop where
  ring : s.links.Ring (.head h) (as.map .node)
  live : ∀ a ∈ as, a ∈ s.live

namespace IsList

theorem nodup (hl : IsList s h as) : as.Nodup :=
  List.Nodup.of_map _ (List.nodup_cons.mp hl.ring.nodup).2

/-- The fuel of the loops is enough. -/
theorem length_le (hl : IsList s h as) : as.length ≤ s.live.card := by
  rw [← List.toFinset_card_of_nodup hl.nodup]
  exact Finset.card_le_card fun a ha => hl.live a (List.mem_toFinset.mp ha)

/-- All elements of the ring are allocated. -/
theorem alive (hl : IsList s h as) (hmem : l ∈ Loc.head h :: as.map .node) : s.Alive l := by
  rcases List.mem_cons.mp hmem with rfl | hmem
  · trivial
  · obtain ⟨a, ha, rfl⟩ := List.mem_map.mp hmem
    exact hl.live a ha

/-- The nodes of the list are what can be reached from its head. -/
theorem reaches_iff (hl : IsList s h as) : s.links.Reaches (.head h) (.node a) ↔ a ∈ as := by
  rw [hl.ring.reaches_iff]
  simp

theorem alive_headD (hl : IsList s h as) : s.Alive ((as.map Loc.node).headD (.head h)) := by
  refine hl.alive ?_
  cases as <;> simp

end IsList

/-! ## The rules of the loops -/

section Loops

variable {body : State → ℕ → Except Fault State} {I : List ℕ → State → Prop}

/-- From a position on: `done` are the nodes that have been visited. -/
theorem forEachFrom_spec (hlist : ∀ done s, I done s → IsList s h as)
    (hbody : ∀ done a rest s, as = done ++ a :: rest → I done s →
      ∃ s', body s a = .ok s' ∧ I (done ++ [a]) s') {done rest : List ℕ} {fuel : ℕ}
    (has : as = done ++ rest) (hfuel : rest.length < fuel) (hI : I done s) :
    ∃ s', forEachFrom h body fuel s ((rest.map Loc.node).headD (.head h)) = .ok s' ∧ I as s' := by
  induction rest generalizing done s fuel with
  | nil =>
    obtain ⟨fuel, rfl⟩ := Nat.exists_eq_succ_of_ne_zero hfuel.ne'
    rw [List.append_nil] at has
    exact ⟨s, by simp [forEachFrom], has ▸ hI⟩
  | cons a rest ih =>
    obtain ⟨fuel, rfl⟩ := Nat.exists_eq_succ_of_ne_zero (Nat.ne_zero_of_lt hfuel)
    obtain ⟨s', hs', hI'⟩ := hbody done a rest s has hI
    have hl := hlist _ _ hI'
    have hpath := hl.ring.path
    rw [has, List.map_append, List.map_cons] at hpath
    have halive : s'.Alive (.node a) := hl.live a (by simp [has])
    obtain ⟨s'', hs'', hI''⟩ := ih (by simp [has]) (Nat.lt_of_succ_lt_succ hfuel) hI'
    refine ⟨s'', ?_, hI''⟩
    simp only [List.map_cons, List.headD_cons, forEachFrom, reduceCtorEq, if_false, hs', bind,
      Except.bind, next_ok halive, hpath.next_of_append]
    exact hs''

/-- A loop over a list that its body does not change. -/
theorem listForEachEntry_spec (hlist : ∀ done s, I done s → IsList s h as)
    (hbody : ∀ done a rest s, as = done ++ a :: rest → I done s →
      ∃ s', body s a = .ok s' ∧ I (done ++ [a]) s') (hI : I [] s) :
    ∃ s', listForEachEntry h body s = .ok s' ∧ I as s' := by
  have hl := hlist _ _ hI
  obtain ⟨s', hs', hI'⟩ := forEachFrom_spec hlist hbody (List.nil_append as).symm
    (Nat.lt_succ_of_le hl.length_le) hI
  refine ⟨s', ?_, hI'⟩
  rw [listForEachEntry, next_ok (l := .head h) trivial, hl.ring.path.next_eq]
  exact hs'

/-- From a position on; the next position has been read before the body is run. -/
theorem forEachSafeFrom_spec
    (hlist : ∀ done rest s, as = done ++ rest → I done s → IsList s h rest)
    (hbody : ∀ done a rest s, as = done ++ a :: rest → I done s →
      ∃ s', body s a = .ok s' ∧ I (done ++ [a]) s') {done rest : List ℕ} {fuel : ℕ} {tmp : Loc}
    (has : as = done ++ rest) (hfuel : rest.length < fuel) (hI : I done s)
    (htmp : rest ≠ [] → tmp = (rest.tail.map Loc.node).headD (.head h)) :
    ∃ s', forEachSafeFrom h body fuel s ((rest.map Loc.node).headD (.head h)) tmp = .ok s' ∧
      I as s' := by
  induction rest generalizing done s fuel tmp with
  | nil =>
    obtain ⟨fuel, rfl⟩ := Nat.exists_eq_succ_of_ne_zero hfuel.ne'
    rw [List.append_nil] at has
    exact ⟨s, by simp [forEachSafeFrom], has ▸ hI⟩
  | cons a rest ih =>
    obtain ⟨fuel, rfl⟩ := Nat.exists_eq_succ_of_ne_zero (Nat.ne_zero_of_lt hfuel)
    obtain ⟨s', hs', hI'⟩ := hbody done a rest s has hI
    have has' : as = (done ++ [a]) ++ rest := by simp [has]
    have hl := hlist _ _ _ has' hI'
    obtain rfl := htmp (by simp)
    -- what is read from the next position is the position after it
    have hnext : rest ≠ [] → s'.links.next ((rest.map Loc.node).headD (.head h)) =
        (rest.tail.map Loc.node).headD (.head h) := by
      intro hne
      obtain ⟨b, rest, rfl⟩ := List.exists_cons_of_ne_nil hne
      exact hl.ring.path.2.next_eq
    obtain ⟨s'', hs'', hI''⟩ := ih has' (Nat.lt_of_succ_lt_succ hfuel) hI' hnext
    refine ⟨s'', ?_, hI''⟩
    simp only [List.map_cons, List.headD_cons, List.tail_cons, forEachSafeFrom, reduceCtorEq,
      if_false, hs', bind, Except.bind, next_ok hl.alive_headD]
    exact hs''

/-- A loop whose body takes the node that it visits out of the list. -/
theorem listForEachEntrySafe_spec
    (hlist : ∀ done rest s, as = done ++ rest → I done s → IsList s h rest)
    (hbody : ∀ done a rest s, as = done ++ a :: rest → I done s →
      ∃ s', body s a = .ok s' ∧ I (done ++ [a]) s') (hI : I [] s) :
    ∃ s', listForEachEntrySafe h body s = .ok s' ∧ I as s' := by
  have hl := hlist [] as s rfl hI
  have htmp : as ≠ [] → s.links.next ((as.map Loc.node).headD (.head h)) =
      (as.tail.map Loc.node).headD (.head h) := by
    intro hne
    obtain ⟨b, rest, rfl⟩ := List.exists_cons_of_ne_nil hne
    exact hl.ring.path.2.next_eq
  obtain ⟨s', hs', hI'⟩ := forEachSafeFrom_spec hlist hbody (List.nil_append as).symm
    (Nat.lt_succ_of_le hl.length_le) hI htmp
  refine ⟨s', ?_, hI'⟩
  simp only [listForEachEntrySafe, bind, Except.bind, next_ok (l := .head h) trivial,
    hl.ring.path.next_eq, next_ok hl.alive_headD]
  exact hs'

end Loops

end Apes.Animals
