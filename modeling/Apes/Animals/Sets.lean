import Apes.Animals.Nodes
import Apes.Lib.Census

/-!
# The two sets

What `animal_ecosystem_start` leaves in the lists: set 1 groups the sorted table, set 2 is
the part of set 1 that passes the filters.
-/

namespace Apes.Animals

open Apes State

variable {n fuel i : ℕ} {s s' : State} {L : Head → List ℕ} {head : Head} {root new : List ℕ}

/-! ## The heads -/

/-- The list `root` has the nodes `root`, the other lists are empty. -/
def onlyRoot (root : List ℕ) : Head → List ℕ := Function.update (fun _ => []) .root root

@[simp] theorem update_onlyRoot (root as : List ℕ) :
    Function.update (onlyRoot root) .root as = onlyRoot as := Function.update_idem ..

@[simp] theorem onlyRoot_root (root : List ℕ) : onlyRoot root .root = root :=
  Function.update_self ..

/-- The links after the five calls of `INIT_LIST_HEAD`. -/
theorem ring_initHeads (m : Links Loc) (h : Head) :
    (((((m.init (.head .root)).init (.head .countRoot)).init (.head .typeRoot)).init
      (.head .bothRoot)).init (.head .noRoot)).Ring (.head h) [] := by
  have hne : ∀ {m : Links Loc} {h h' : Head}, m.Ring (.head h) [] → h' ≠ h →
      (m.init (.head h')).Ring (.head h) [] := fun hr hh => hr.init_of_ne (by simpa using hh)
  cases h with
  | noRoot => exact Links.init_ring _ _
  | bothRoot => exact hne (Links.init_ring _ _) (by decide)
  | typeRoot => exact hne (hne (Links.init_ring _ _) (by decide)) (by decide)
  | countRoot =>
    exact hne (hne (hne (Links.init_ring _ _) (by decide)) (by decide)) (by decide)
  | root =>
    exact hne (hne (hne (hne (Links.init_ring _ _) (by decide)) (by decide)) (by decide))
      (by decide)

theorem initHeads_spec (s : State) : ∃ s', initHeads s = .ok s' ∧ Holds s' (onlyRoot []) ∧
    Grown s s' [] ∧ s'.totalNodes = s.totalNodes ∧ s'.noNodes = s.noNodes := by
  have hnil : onlyRoot [] = fun _ => [] := Function.update_eq_self ..
  refine ⟨_, rfl, ?_, ?_, rfl, rfl⟩
  · rw [hnil]
    exact ⟨fun h => ⟨ring_initHeads s.links h, by simp⟩, by simp, by simp⟩
  · exact ⟨(List.append_nil _).symm, rfl, by simp, by simp, List.nodup_nil, fun _ _ => rfl⟩

/-! ## Set 1 -/

theorem row_ok {names : Vector (Row 15) n} (hi : i < n) : row names i = .ok names[i] := by
  rw [row, Vector.getElem?_eq_getElem hi]

theorem strings_drop {names : Vector (Row 15) n} (hi : i < n) :
    (Sorting.strings names).toList.drop i =
      names[i].str :: (Sorting.strings names).toList.drop (i + 1) := by
  rw [List.drop_eq_getElem_cons (by simpa using hi)]
  simp [Sorting.strings]

/-- The inner loop counts the rows from `j` on that hold the name of row `i`. -/
theorem countAnimal_eq {names : Vector (Row 15) n} (hi : i < n) (j count : ℕ) :
    countAnimal names i j count =
      .ok (count + ((Sorting.strings names).toList.drop j).count names[i].str) := by
  induction hm : n - j generalizing j count with
  | zero =>
    have hj : ¬ j < n := by omega
    rw [countAnimal, dif_neg hj, List.drop_eq_nil_of_le (by simpa using hj)]
    rfl
  | succ m ih =>
    have hj : j < n := by omega
    rw [countAnimal, dif_pos hj, row_ok hi, row_ok hj]
    have hcmp : strcmp names[i].bytes names[j].bytes = 0 ↔ names[i].str = names[j].str :=
      strcmp_eq_zero_iff names[i].terminated names[j].terminated
    simp only [bind, Except.bind]
    rw [ih _ _ (by omega), strings_drop hj, List.count_cons]
    by_cases heq : names[i].str = names[j].str
    · simp [hcmp, heq]
      omega
    · simp [hcmp, heq, Ne.symm heq]

theorem Holds.countNode (hs : Holds s L) (head : Head) : Holds (s.countNode head) L :=
  hs.withCounters s.totalNodes _

theorem Grown.of_countNode (hg : Grown (s.countNode head) s' new) : Grown s s' new :=
  ⟨hg.kmallocs, hg.kfrees, hg.live, hg.fresh, hg.nodup, hg.animals⟩

/-- The loop makes a node for every group of the rest of the table. -/
theorem groupNames_spec (k : Kernel) (names : Vector (Row 15) n) (hs : Holds s (onlyRoot root))
    (hfuel : n - i < fuel) :
    ∃ s' new, groupNames k names fuel i s = .ok s' ∧ Holds s' (onlyRoot (root ++ new)) ∧
      Grown s s' new ∧ s'.contents new = groups ((Sorting.strings names).toList.drop i) ∧
      s'.totalNodes = s.totalNodes ∧
      s'.noNodes = Function.update s.noNodes .root (s.noNodes .root + new.length) := by
  induction fuel generalizing i s root with
  | zero => omega
  | succ fuel ih =>
    by_cases hi : i < n
    · generalize hc : ((Sorting.strings names).toList.drop i).count names[i].str = c
      have hpos : 0 < c := by
        rw [← hc, strings_drop hi]
        exact List.count_pos_iff.mpr List.mem_cons_self
      obtain ⟨s₁, a, hnew, hholds, hgrown, hcontent, htotal, hno⟩ :=
        (hs.countNode .root).newNode_spec k names[i] c .root
      rw [onlyRoot_root, update_onlyRoot] at hholds
      obtain ⟨s', new, hloop, hholds', hgrown', hcontents, htotal', hno'⟩ :=
        ih hholds (i := i + c) (by omega)
      refine ⟨s', a :: new, ?_, ?_, hgrown.of_countNode.trans hgrown', ?_, ?_, ?_⟩
      · rw [groupNames, if_pos hi, countAnimal_eq hi, hc, Nat.zero_add, row_ok hi]
        simp only [bind, Except.bind, hnew]
        exact hloop
      · simpa using hholds'
      · have ha : s'.content a = s₁.content a := by
          have hsame : s'.contents [a] = s₁.contents [a] :=
            hgrown'.contents_eq fun b hb => (hgrown.live b).mpr (Or.inr hb)
          simpa [contents] using hsame
        have hgroups := groups_cons names[i].str ((Sorting.strings names).toList.drop (i + 1))
        rw [← strings_drop hi, hc, List.drop_drop] at hgroups
        rw [hgroups, ← hcontents, ← hcontent, ← ha]
        rfl
      · exact htotal'.trans htotal
      · rw [hno', hno]
        simp only [State.countNode, Function.update_self, Function.update_idem, List.length_cons]
        rw [Nat.add_assoc, Nat.add_comm 1]
    · refine ⟨s, [], ?_, by simpa using hs, Grown.refl s, ?_, rfl, by simp⟩
      · rw [groupNames, if_neg hi]
      · rw [List.drop_eq_nil_of_le (by simpa using hi), groups_nil]
        rfl

/-- A loop that prints a list changes nothing. -/
theorem printRoot_spec (hs : Holds s L) : listForEachEntry head printNode s = .ok s := by
  obtain ⟨s', hs', rfl⟩ : ∃ s', listForEachEntry head printNode s = .ok s' ∧ s' = s := by
    refine listForEachEntry_spec (I := fun _ t => t = s) (fun _ _ ht => ht ▸ hs.list head)
      (fun done a rest t has ht => ?_) rfl
    subst ht
    have ha : a ∈ L head := by simp [has]
    exact ⟨_, printNode_ok ((hs.list head).live a ha) (hs.named head a ha), rfl⟩
  exact hs'

theorem set1_spec (k : Kernel) (names : Vector (Row 15) n) (s : State) :
    ∃ s' root, set1 k names s = .ok s' ∧ Holds s' (onlyRoot root) ∧ Grown s s' root ∧
      s'.contents root = groups (Sorting.strings names).toList ∧
      s'.totalNodes = s.totalNodes ∧
      s'.noNodes = Function.update s.noNodes .root (s.noNodes .root + root.length) := by
  obtain ⟨s₁, hinit, hholds, hgrown, htotal, hno⟩ := initHeads_spec s
  obtain ⟨s', root, hloop, hholds', hgrown', hcontents, htotal', hno'⟩ :=
    groupNames_spec k names hholds (i := 0) (Nat.lt_succ_self n)
  refine ⟨s', root, ?_, hholds', by simpa using hgrown.trans hgrown', hcontents,
    htotal'.trans htotal, by rw [hno', hno]⟩
  simp only [set1, bind, Except.bind, hinit]
  rw [show groupNames k names (n + 1) 0 s₁ = .ok s' from hloop]
  exact printRoot_spec hholds'

/-! ## Set 2 -/

/-- `cond` tests a node by its name and its count. -/
def Tests (cond : State → ℕ → Except Fault Bool) (P : List ℕ × ℕ → Bool) : Prop :=
  ∀ s a, a ∈ s.live → s.Named a → cond s a = .ok (P (s.content a))

theorem countReached_tests (findCount : ℤ) :
    Tests (countReached findCount) fun e => decide (findCount ≤ e.2) := by
  intro s a ha _
  rw [countReached, count_ok ha]
  rfl

theorem nameMatches_tests (wanted : CString) :
    Tests (nameMatches (some wanted)) fun e => decide (e.1 = wanted.str) := by
  intro s a ha hn
  obtain ⟨name, hname, hstr⟩ := animalName_ok ha hn
  have hcmp : strcmp name.bytes wanted.bytes = 0 ↔ (s.content a).1 = wanted.str := by
    rw [← hstr]
    exact strcmp_eq_zero_iff name.terminated wanted.terminated
  rw [nameMatches, hname]
  simp [bind, Except.bind, hcmp]

theorem contents_concat (s : State) (done : List ℕ) (a : ℕ) :
    s.contents (done ++ [a]) = s.contents done ++ [s.content a] := by
  simp [State.contents]

/-- From `s` to `t` the nodes of `done` that pass the test have been copied to the list `head`,
    as the nodes `new`. -/
structure Selected (s : State) (L : Head → List ℕ) (head : Head) (P : List ℕ × ℕ → Bool)
    (done : List ℕ) (t : State) (new : List ℕ) : Prop where
  holds : Holds t (Function.update L head (L head ++ new))
  grown : Grown s t new
  contents : t.contents new = (s.contents done).filter P
  totalNodes : t.totalNodes = s.totalNodes
  noNodes : t.noNodes = s.noNodes

namespace Selected

variable {t t' : State} {P : List ℕ × ℕ → Bool} {cond : State → ℕ → Except Fault Bool}
  {done rest : List ℕ} {a b : ℕ}

theorem start (hs : Holds s L) : Selected s L head P [] s [] where
  holds := by simpa using hs
  grown := Grown.refl s
  contents := rfl
  totalNodes := rfl
  noNodes := rfl

/-- A node that does not pass the test. -/
theorem skip (h : Selected s L head P done t new) (hP : P (s.content a) = false) :
    Selected s L head P (done ++ [a]) t new where
  holds := h.holds
  grown := h.grown
  contents := by
    rw [h.contents, contents_concat, List.filter_append]
    simp [hP]
  totalNodes := h.totalNodes
  noNodes := h.noNodes

/-- A node that passes it has been copied to the new node `b`. -/
theorem copy (h : Selected s L head P done t new) (hP : P (s.content a) = true)
    (hholds : Holds t' (Function.update L head (L head ++ (new ++ [b])))) (hgrown : Grown t t' [b])
    (hcontent : t'.content b = s.content a) (htotal : t'.totalNodes = t.totalNodes)
    (hno : t'.noNodes = t.noNodes) : Selected s L head P (done ++ [a]) t' (new ++ [b]) where
  holds := hholds
  grown := h.grown.trans hgrown
  contents := by
    have hold : t'.contents new = t.contents new :=
      hgrown.contents_eq fun c hc => (h.grown.live c).mpr (Or.inr hc)
    rw [contents_concat, hold, h.contents, hcontent, contents_concat, List.filter_append]
    simp [hP]
  totalNodes := htotal.trans h.totalNodes
  noNodes := hno.trans h.noNodes

/-- The body of the loop. -/
theorem body (k : Kernel) (hc : Tests cond P) (hs : Holds s L) (hhead : head ≠ .root)
    (h : Selected s L head P done t new) (has : L .root = done ++ a :: rest) :
    ∃ t' new', (do
      if ← cond t a then
        let name ← t.animalName a
        let count ← t.count a
        newNode k name count head t
      else .ok t) = .ok t' ∧ Selected s L head P (done ++ [a]) t' new' := by
  have hroot : Function.update L head (L head ++ new) .root = done ++ a :: rest := by
    simpa [hhead.symm] using has
  have ha : a ∈ t.live := (h.holds.list .root).live a (by simp [hroot])
  have hn : t.Named a := h.holds.named .root a (by simp [hroot])
  have hsame : t.content a = s.content a := by
    have hlive : a ∈ s.live := (hs.list .root).live a (by simp [has])
    rw [content, content, h.grown.animals a hlive]
  have hcond := hc t a ha hn
  rw [hsame] at hcond
  cases hP : P (s.content a) with
  | false =>
    refine ⟨t, new, ?_, h.skip hP⟩
    simp [hcond, hP, bind, Except.bind]
  | true =>
    obtain ⟨name, hname, hstr⟩ := animalName_ok ha hn
    obtain ⟨t', b, hnew, hholds, hgrown, hcontent, htotal, hno⟩ :=
      h.holds.newNode_spec k name (t.content a).2 head
    refine ⟨t', new ++ [b], ?_, h.copy hP (by simpa using hholds) hgrown ?_ htotal hno⟩
    · simp [hcond, hP, hname, count_ok ha, hnew, bind, Except.bind]
    · rw [hcontent, hstr, ← hsame]

end Selected

/-- The nodes of set 1 that pass the test are copied, in their order. -/
theorem copyNodes_spec (k : Kernel) {cond : State → ℕ → Except Fault Bool}
    {P : List ℕ × ℕ → Bool} (hc : Tests cond P) (hs : Holds s L) (hhead : head ≠ .root) :
    ∃ s' new, copyNodes k cond head s = .ok s' ∧
      Holds s' (Function.update L head (L head ++ new)) ∧ Grown s s' new ∧
      s'.contents new = (s.contents (L .root)).filter P ∧
      s'.totalNodes = s.totalNodes ∧ s'.noNodes = s.noNodes := by
  obtain ⟨s', hs', new, h⟩ : ∃ s', copyNodes k cond head s = .ok s' ∧
      ∃ new, Selected s L head P (L .root) s' new := by
    refine listForEachEntry_spec (I := fun done t => ∃ new, Selected s L head P done t new)
      (fun done t ht => ?_) (fun done a rest t has ht => ?_) ⟨[], .start hs⟩
    · obtain ⟨new, h⟩ := ht
      simpa [hhead.symm] using h.holds.list .root
    · obtain ⟨new, h⟩ := ht
      obtain ⟨t', new', hbody, h'⟩ := h.body k hc hs hhead has
      exact ⟨t', hbody, new', h'⟩
  exact ⟨s', new, hs', h.holds, h.grown, h.contents, h.totalNodes, h.noNodes⟩

/-- Printing a list counts its nodes. -/
theorem printNodes_spec (hs : Holds s L) (head : Head) : printNodes head s =
    .ok { s with
      noNodes := Function.update s.noNodes head (s.noNodes head + (L head).length) } := by
  let counted (m : ℕ) : State :=
    { s with noNodes := Function.update s.noNodes head (s.noNodes head + m) }
  obtain ⟨s', hs', rfl⟩ : ∃ s', printNodes head s = .ok s' ∧ s' = counted (L head).length := by
    refine listForEachEntry_spec (I := fun done t => t = counted done.length)
      (fun _ t ht => ?_) (fun done a rest t has ht => ?_) ?_
    · subst ht
      exact (hs.withCounters s.totalNodes _).list head
    · subst ht
      have ha : a ∈ L head := by simp [has]
      refine ⟨_, printNode_ok ((hs.list head).live a ha) (hs.named head a ha), ?_⟩
      simp [counted, State.countNode, Nat.add_assoc]
    · simp [counted]
  exact hs'

/-- The list of set 2 that the parameters choose. -/
def Input.chosen (p : Input n) : Head :=
  if p.findCount ≠ 0 ∧ p.animalFindName.isSome then .bothRoot
  else if p.findCount ≠ 0 then .countRoot
  else if p.animalFindName.isSome then .typeRoot
  else .noRoot

/-- A name with its count passes the filters that are set. -/
def Input.Selects (p : Input n) (e : List ℕ × ℕ) : Prop :=
  (p.findCount = 0 ∨ p.findCount ≤ e.2) ∧
    (p.animalFindName = none ∨ p.animalFindName.map CString.str = some e.1)

instance (p : Input n) : DecidablePred p.Selects := fun e => by
  unfold Input.Selects
  cases p.animalFindName <;> infer_instance

theorem Input.chosen_ne_root (p : Input n) : p.chosen ≠ .root := by
  unfold Input.chosen
  split
  · decide
  · split
    · decide
    · split <;> decide

/-- The conditions as `animal_ecosystem_start` and `animal_ecosystem_end` nest them. -/
theorem Input.nested_eq (p : Input n) (f : Head → State → Except Fault State) (s : State) :
    (if p.findCount ≠ 0 ∧ p.animalFindName.isSome then f .bothRoot s
      else if p.findCount ≠ 0 ∨ p.animalFindName.isSome then do
        let s ← if p.findCount ≠ 0 then f .countRoot s else .ok s
        if p.animalFindName.isSome then f .typeRoot s else .ok s
      else f .noRoot s) = f p.chosen s := by
  obtain ⟨table, findCount, animalFindName⟩ := p
  by_cases hc : findCount = 0
  · cases animalFindName with
    | none => simp [Input.chosen, hc]
    | some wanted => simp [Input.chosen, hc, bind, Except.bind]
  · cases animalFindName with
    | none =>
      have hchosen : Input.chosen ⟨table, findCount, none⟩ = .countRoot := by
        simp [Input.chosen, hc]
      rw [if_neg (by simp), if_pos (Or.inl hc), if_pos hc, hchosen]
      exact bind_pure (f .countRoot s)
    | some wanted => simp [Input.chosen, hc]

/-- Set 1 has the nodes `root`, the chosen list of set 2 the nodes `new`. -/
def lists (p : Input n) (root new : List ℕ) : Head → List ℕ :=
  Function.update (onlyRoot root) p.chosen new

@[simp] theorem lists_root (p : Input n) (root new : List ℕ) : lists p root new .root = root := by
  rw [lists, Function.update_of_ne p.chosen_ne_root.symm, onlyRoot_root]

@[simp] theorem lists_chosen (p : Input n) (root new : List ℕ) :
    lists p root new p.chosen = new :=
  Function.update_self ..

theorem lists_of_ne {p : Input n} {h : Head} (hr : h ≠ .root) (hc : h ≠ p.chosen) :
    lists p root new h = [] := by
  rw [lists, Function.update_of_ne hc, onlyRoot, Function.update_of_ne hr]

theorem mem_lists {p : Input n} {h : Head} {a : ℕ} :
    a ∈ lists p root new h ↔ h = .root ∧ a ∈ root ∨ h = p.chosen ∧ a ∈ new := by
  by_cases hr : h = .root
  · subst hr
    simp [p.chosen_ne_root.symm]
  · by_cases hc : h = p.chosen
    · subst hc
      simp [p.chosen_ne_root]
    · simp [lists_of_ne hr hc, hr, hc]

/-- One of the copies of set 1. -/
theorem filter_spec (k : Kernel) {cond : State → ℕ → Except Fault Bool}
    {P : List ℕ × ℕ → Bool} (hc : Tests cond P) (hs : Holds s (onlyRoot root))
    (hhead : head ≠ .root) :
    ∃ s' new, (copyNodes k cond head s >>= printNodes head) = .ok s' ∧
      Holds s' (Function.update (onlyRoot root) head new) ∧ Grown s s' new ∧
      s'.contents new = (s.contents root).filter P ∧ s'.totalNodes = s.totalNodes ∧
      s'.noNodes = Function.update s.noNodes head (s.noNodes head + new.length) := by
  obtain ⟨s', new, hcopy, hholds, hgrown, hcontents, htotal, hno⟩ := copyNodes_spec k hc hs hhead
  have hnil : onlyRoot root head = [] := Function.update_of_ne hhead _ _
  rw [hnil, List.nil_append] at hholds
  rw [onlyRoot_root] at hcontents
  let counters := Function.update s.noNodes head (s.noNodes head + new.length)
  refine ⟨_, new, ?_, hholds.withCounters s'.totalNodes counters,
    hgrown.withCounters s'.totalNodes counters, hcontents, htotal, rfl⟩
  rw [hcopy]
  simp only [bind, Except.bind]
  rw [printNodes_spec hholds, Function.update_self, hno]

theorem Tests.both {cond cond' : State → ℕ → Except Fault Bool} {P P' : List ℕ × ℕ → Bool}
    (hc : Tests cond P) (hc' : Tests cond' P') :
    Tests (fun s a => do if ← cond s a then cond' s a else .ok false) fun e => P e && P' e := by
  intro s a ha hn
  simp only [hc s a ha hn, hc' s a ha hn, bind, Except.bind]
  cases P (s.content a) <;> rfl

/-- Set 2 is one copy of set 1, whatever the parameters are. -/
theorem set2_eq (k : Kernel) (p : Input n) (s : State) : ∃ cond,
    Tests cond (fun e => decide (p.Selects e)) ∧
      set2 k p s = (copyNodes k cond p.chosen s >>= printNodes p.chosen) := by
  let parts : Head → State → Except Fault State
    | .bothRoot => bothFilters k p
    | .countRoot => countFilter k p
    | .typeRoot => typeFilter k p
    | _ => noFilter k
  have hset2 : set2 k p s = parts p.chosen s := p.nested_eq parts s
  rw [hset2]
  obtain ⟨table, findCount, animalFindName⟩ := p
  by_cases hc : findCount = 0
  · cases animalFindName with
    | none =>
      have hchosen : Input.chosen ⟨table, findCount, none⟩ = .noRoot := by simp [Input.chosen, hc]
      rw [hchosen]
      exact ⟨fun _ _ => .ok true, fun s a _ _ => by simp [Input.Selects, hc], rfl⟩
    | some wanted =>
      have hchosen : Input.chosen ⟨table, findCount, some wanted⟩ = .typeRoot := by
        simp [Input.chosen, hc]
      rw [hchosen]
      refine ⟨nameMatches (some wanted), ?_, rfl⟩
      simpa [Input.Selects, hc, eq_comm] using nameMatches_tests wanted
  · cases animalFindName with
    | none =>
      have hchosen : Input.chosen ⟨table, findCount, none⟩ = .countRoot := by
        simp [Input.chosen, hc]
      rw [hchosen]
      refine ⟨countReached findCount, ?_, rfl⟩
      simpa [Input.Selects, hc] using countReached_tests findCount
    | some wanted =>
      have hchosen : Input.chosen ⟨table, findCount, some wanted⟩ = .bothRoot := by
        simp [Input.chosen, hc]
      rw [hchosen]
      refine ⟨fun s a => do
        if ← countReached findCount s a then nameMatches (some wanted) s a else .ok false, ?_, rfl⟩
      simpa [Input.Selects, hc, eq_comm] using
        (countReached_tests findCount).both (nameMatches_tests wanted)

theorem set2_spec (k : Kernel) (p : Input n) (hs : Holds s (onlyRoot root)) :
    ∃ s' new, set2 k p s = .ok s' ∧ Holds s' (lists p root new) ∧ Grown s s' new ∧
      s'.contents new = (s.contents root).filter (fun e => p.Selects e) ∧
      s'.totalNodes = s.totalNodes ∧
      s'.noNodes = Function.update s.noNodes p.chosen (s.noNodes p.chosen + new.length) := by
  obtain ⟨cond, hcond, hset2⟩ := set2_eq k p s
  rw [hset2]
  exact filter_spec k hcond hs p.chosen_ne_root

/-! ## The totals -/

theorem totals_eq (p : Input n) (s : State) : totals p s =
    { s with totalNodes := s.totalNodes + s.noNodes .root + s.noNodes p.chosen } := by
  obtain ⟨table, findCount, animalFindName⟩ := p
  by_cases hc : findCount = 0 <;> cases animalFindName <;> simp [totals, Input.chosen, hc]

end Apes.Animals
