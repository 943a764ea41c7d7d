import Mathlib.Data.List.Nodup
import Mathlib.Logic.Function.Basic
import Mathlib.Logic.Relation

/-!
# Circular doubly linked lists

Every element has a successor and a predecessor; a list is a ring through its head. The
operations are those on list heads that are embedded in larger records: they know the
links only.

## Main definitions

- `Links`: the links of all elements
- `Links.Path`, `Links.Ring`: the elements from one to another, the elements of a list
- `Links.Reaches`: what is found by following the links from an element
- `Links.init`, `Links.addTail`, `Links.del`
-/

namespace Apes

/-- The two links of every element. -/
@[ext] structure Links (L : Type*) where
  next : L → L
  prev : L → L

namespace Links

variable {L : Type*}

/-- From `x` the elements `as` lead to `y`, and back. -/
def Path (m : Links L) : L → List L → L → Prop
  | x, [], y => m.next x = y ∧ m.prev y = x
  | x, a :: as, y => (m.next x = a ∧ m.prev a = x) ∧ m.Path a as y

/-- The list with the head `h` has the elements `as`. -/
structure Ring (m : Links L) (h : L) (as : List L) : Prop where
  path : m.Path h as h
  nodup : (h :: as).Nodup

variable {m m' : Links L} {x y h a : L} {as : List L}

theorem Path.next_eq (hp : m.Path x as y) : m.next x = as.headD y := by
  cases as with
  | nil => exact hp.1
  | cons a as => exact hp.1.1

theorem Path.next_of_append {done rest : List L} (hp : m.Path x (done ++ a :: rest) y) :
    m.next a = rest.headD y := by
  induction done generalizing x with
  | nil => exact hp.2.next_eq
  | cons b done ih => exact ih hp.2

/-- Only the links along the path matter. -/
theorem Path.congr (hp : m.Path x as y) (hnext : ∀ z ∈ x :: as, m'.next z = m.next z)
    (hprev : ∀ z ∈ as, m'.prev z = m.prev z) (hy : m'.prev y = m.prev y) : m'.Path x as y := by
  induction as generalizing x with
  | nil => exact ⟨(hnext x List.mem_cons_self).trans hp.1, hy.trans hp.2⟩
  | cons a as ih =>
    refine ⟨⟨(hnext x List.mem_cons_self).trans hp.1.1,
      (hprev a List.mem_cons_self).trans hp.1.2⟩, ?_⟩
    exact ih hp.2 (fun z hz => hnext z (List.mem_cons_of_mem _ hz))
      fun z hz => hprev z (List.mem_cons_of_mem _ hz)

theorem Ring.congr (hr : m.Ring h as) (hnext : ∀ z ∈ h :: as, m'.next z = m.next z)
    (hprev : ∀ z ∈ h :: as, m'.prev z = m.prev z) : m'.Ring h as where
  path := hr.path.congr hnext (fun z hz => hprev z (List.mem_cons_of_mem _ hz))
    (hprev h List.mem_cons_self)
  nodup := hr.nodup

/-- The predecessor of the end is the last element of the path. -/
theorem Path.prev_mem (hp : m.Path x as y) : m.prev y ∈ x :: as := by
  induction as generalizing x with
  | nil => exact hp.2 ▸ List.mem_cons_self
  | cons a as ih => exact List.mem_cons_of_mem _ (ih hp.2)

theorem Ring.prev_mem (hr : m.Ring h as) : m.prev h ∈ h :: as := hr.path.prev_mem

/-! ## What can be reached -/

/-- Following the successors from `x` leads to `y`. -/
def Reaches (m : Links L) : L → L → Prop := Relation.ReflTransGen fun x y => m.next x = y

theorem Path.next_mem {z : L} (hp : m.Path x as y) (hz : z ∈ x :: as) : m.next z ∈ as ++ [y] := by
  induction as generalizing x with
  | nil =>
    rw [List.mem_singleton.mp hz, hp.1]
    exact List.mem_singleton_self y
  | cons a as ih =>
    rcases List.mem_cons.mp hz with rfl | hz
    · rw [hp.1.1]
      exact List.mem_cons_self
    · exact List.mem_cons_of_mem _ (ih hp.2 hz)

theorem Path.reaches (hp : m.Path x as y) (ha : a ∈ as) : m.Reaches x a := by
  induction as generalizing x with
  | nil => cases ha
  | cons b as ih =>
    have hxb : m.Reaches x b := Relation.ReflTransGen.single hp.1.1
    rcases List.mem_cons.mp ha with rfl | ha
    · exact hxb
    · exact hxb.trans (ih hp.2 ha)

/-- From the head of a list its elements are reached, and nothing else but the head. -/
theorem Ring.reaches_iff (hr : m.Ring h as) : m.Reaches h a ↔ a ∈ h :: as := by
  constructor
  · intro ha
    induction ha with
    | refl => exact List.mem_cons_self
    | tail _ hnext ih =>
      have hmem := hr.path.next_mem ih
      rw [hnext] at hmem
      simpa [or_comm] using hmem
  · intro ha
    rcases List.mem_cons.mp ha with rfl | ha
    · exact Relation.ReflTransGen.refl
    · exact hr.path.reaches ha

variable [DecidableEq L]

/-! ## An empty list -/

/-- `INIT_LIST_HEAD(h)` -/
def init (m : Links L) (h : L) : Links L :=
  ⟨Function.update m.next h h, Function.update m.prev h h⟩

theorem init_ring (m : Links L) (h : L) : (m.init h).Ring h [] where
  path := by simp [Path, init]
  nodup := List.nodup_singleton h

theorem Ring.init_of_ne (hr : m.Ring x as) (hx : h ∉ x :: as) : (m.init h).Ring x as := by
  have hne : ∀ z ∈ x :: as, z ≠ h := fun z hz hzh => hx (hzh ▸ hz)
  exact hr.congr (fun z hz => Function.update_of_ne (hne z hz) _ _)
    fun z hz => Function.update_of_ne (hne z hz) _ _

/-! ## A new last element -/

/-- `list_add_tail(a, h)` -/
def addTail (m : Links L) (a h : L) : Links L :=
  ⟨Function.update (Function.update m.next a h) (m.prev h) a,
    Function.update (Function.update m.prev h a) a (m.prev h)⟩

theorem Path.addTail (hp : m.Path x as h) (hnd : (x :: as).Nodup) (hax : a ∉ x :: as)
    (hah : a ≠ h) (hh : h ∉ as) : (m.addTail a h).Path x (as ++ [a]) h := by
  induction as generalizing x with
  | nil =>
    have hxa : x ≠ a := fun hxa => hax (hxa ▸ List.mem_cons_self)
    simp [Path, Links.addTail, hp.2, hxa.symm, hah.symm]
  | cons b as ih =>
    obtain ⟨hxb, hnd⟩ := List.nodup_cons.mp hnd
    rw [List.mem_cons, not_or] at hax hh
    have hxlast : x ≠ m.prev h := fun hx => hxb (hx ▸ hp.2.prev_mem)
    have hba : b ≠ a := fun hba => hax.2 (hba ▸ List.mem_cons_self)
    refine ⟨⟨?_, ?_⟩, ih hp.2 hnd hax.2 hh.2⟩
    · simp only [Links.addTail]
      rw [Function.update_of_ne hxlast, Function.update_of_ne (Ne.symm hax.1), hp.1.1]
    · simp only [Links.addTail]
      rw [Function.update_of_ne hba, Function.update_of_ne (Ne.symm hh.1), hp.1.2]

theorem Ring.addTail (hr : m.Ring h as) (ha : a ∉ h :: as) :
    (m.addTail a h).Ring h (as ++ [a]) where
  path := hr.path.addTail hr.nodup ha (fun hah => ha (hah ▸ List.mem_cons_self))
    (List.nodup_cons.mp hr.nodup).1
  nodup := by
    rw [← List.cons_append]
    exact List.nodup_append.mpr ⟨hr.nodup, List.nodup_singleton a, fun z hz b hb hzb =>
      ha (by rw [← List.mem_singleton.mp hb, ← hzb]; exact hz)⟩

/-- Another list is not touched. -/
theorem Ring.addTail_of_disjoint (hr : m.Ring h as) {bs : List L} (hs : m.Ring x bs)
    (ha : a ∉ x :: bs) (hd : ∀ z ∈ x :: bs, z ∉ h :: as) : (m.addTail a h).Ring x bs := by
  have hna : ∀ z ∈ x :: bs, z ≠ a := fun z hz hza => ha (hza ▸ hz)
  have hnh : ∀ z ∈ x :: bs, z ≠ h := fun z hz hzh => hd z hz (hzh ▸ List.mem_cons_self)
  have hnp : ∀ z ∈ x :: bs, z ≠ m.prev h := fun z hz hzp => hd z hz (hzp ▸ hr.prev_mem)
  refine hs.congr (fun z hz => ?_) fun z hz => ?_
  · simp only [Links.addTail]
    rw [Function.update_of_ne (hnp z hz), Function.update_of_ne (hna z hz)]
  · simp only [Links.addTail]
    rw [Function.update_of_ne (hna z hz), Function.update_of_ne (hnh z hz)]

/-! ## An element that is taken out -/

/-- `list_del(a)`; the links of `a` get two values that are no elements. -/
def del (m : Links L) (a poison1 poison2 : L) : Links L :=
  ⟨Function.update (Function.update m.next (m.prev a) (m.next a)) a poison1,
    Function.update (Function.update m.prev (m.next a) (m.prev a)) a poison2⟩

variable {p1 p2 : L}

theorem Ring.del_first (hr : m.Ring h (a :: as)) : (m.del a p1 p2).Ring h as := by
  have hnd := hr.nodup
  obtain ⟨hh, ha, hnd'⟩ : h ∉ a :: as ∧ a ∉ as ∧ as.Nodup := by
    simpa only [List.nodup_cons] using hnd
  rw [List.mem_cons, not_or] at hh
  obtain ⟨⟨hnext, hprev⟩, hpath⟩ := hr.path
  refine ⟨?_, List.nodup_cons.mpr ⟨hh.2, hnd'⟩⟩
  cases as with
  | nil => simp [Path, del, hpath.1, hprev, hh.1]
  | cons b bs =>
    obtain ⟨⟨hab, hba⟩, hbs⟩ := hpath
    obtain ⟨hb, -⟩ := List.nodup_cons.mp hnd'
    have hna : ∀ z ∈ b :: bs, z ≠ a := fun z hz hza => ha (hza ▸ hz)
    have hnh : ∀ z ∈ b :: bs, z ≠ h := fun z hz hzh => hh.2 (hzh ▸ hz)
    refine ⟨⟨?_, ?_⟩, hbs.congr (fun z hz => ?_) (fun z hz => ?_) ?_⟩
    · simp [del, hprev, hab, hh.1]
    · simp [del, hprev, hab, hna b List.mem_cons_self]
    · simp only [del, hprev]
      rw [Function.update_of_ne (hna z hz), Function.update_of_ne (hnh z hz)]
    · have hzb : z ≠ b := fun hzb => hb (hzb ▸ hz)
      simp only [del, hab]
      rw [Function.update_of_ne (hna z (List.mem_cons_of_mem _ hz)), Function.update_of_ne hzb]
    · simp only [del, hab]
      rw [Function.update_of_ne hh.1, Function.update_of_ne (hnh b List.mem_cons_self).symm]

/-- Another list is not touched. -/
theorem Ring.del_of_disjoint (hr : m.Ring h (a :: as)) {bs : List L} (hs : m.Ring x bs)
    (hd : ∀ z ∈ x :: bs, z ∉ h :: a :: as) : (m.del a p1 p2).Ring x bs := by
  obtain ⟨⟨-, hprev⟩, hpath⟩ := hr.path
  have hnext : m.next a ∈ h :: a :: as := by
    rw [hpath.next_eq]
    cases as <;> simp
  have hna : ∀ z ∈ x :: bs, z ≠ a := fun z hz hza => hd z hz (by simp [hza])
  refine hs.congr (fun z hz => ?_) fun z hz => ?_
  · have hzh : z ≠ m.prev a := fun hzp => hd z hz (by simp [hzp, hprev])
    simp only [del]
    rw [Function.update_of_ne (hna z hz), Function.update_of_ne hzh]
  · have hzn : z ≠ m.next a := fun hzn => hd z hz (hzn ▸ hnext)
    simp only [del]
    rw [Function.update_of_ne (hna z hz), Function.update_of_ne hzn]

end Links

end Apes
