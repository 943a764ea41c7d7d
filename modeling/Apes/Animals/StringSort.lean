import Apes.Animals.NameSort
import Apes.Lib.CheckedString
import Mathlib.Algebra.Order.Ring.Nat

/-!
# The loops of the name sort, byte by byte

`sort_strings.c` and `animal_lkm.c` run the same two loops over their tables, with counters
of different types. Here the rows are plain arrays of bytes, and an access that leaves a row
or `temp` is a fault. A table whose rows all hold strings is sorted without a fault, and what
the loops compute is `Sorting.sort`.
-/

namespace Apes.Animals

open Apes

variable {W n : ℕ}

/-- The arrays `names_t` and `temp`. -/
structure Table where
  names : List (List UInt8)
  temp : List UInt8

/-- A fault of the loops. -/
inductive SortFault
  /-- `names_t` has no row `i`. -/
  | row (i : ℕ)
  /-- `strcmp` or `strcpy` leaves a row or `temp`. -/
  | overrun (o : Overrun)
  deriving DecidableEq, Repr

/-- The type of the counters: `++` counts up to `n`. -/
structure Counter (n : ℕ) where
  next : ℕ → ℕ
  counts : ∀ i < n, next i = i + 1

/-- An unsigned counter of `w` bits. -/
def Counter.ofWidth (w : ℕ) (h : n < 2 ^ w) : Counter n where
  next i := (i + 1) % 2 ^ w
  counts i hi := Nat.mod_eq_of_lt (by omega)

namespace Table

/-- `names_t[i]` -/
def row (t : Table) (i : ℕ) : Except SortFault (List UInt8) :=
  match t.names[i]? with
  | some r => .ok r
  | none => .error (.row i)

/-- `strcmp(names_t[i],names_t[j])` -/
def compare (t : Table) (i j : ℕ) : Except SortFault ℤ := do
  let a ← t.row i
  let b ← t.row j
  (checkedStrcmp a b).mapError .overrun

/-- `strcpy(temp,names_t[i])` -/
def saveRow (t : Table) (i : ℕ) : Except SortFault Table := do
  let src ← t.row i
  let temp ← (checkedStrcpy t.temp src).mapError .overrun
  return { t with temp }

/-- `strcpy(names_t[i],names_t[j])` -/
def copyRow (t : Table) (i j : ℕ) : Except SortFault Table := do
  let dst ← t.row i
  let src ← t.row j
  let r ← (checkedStrcpy dst src).mapError .overrun
  return { t with names := t.names.set i r }

/-- `strcpy(names_t[j],temp)` -/
def restoreRow (t : Table) (j : ℕ) : Except SortFault Table := do
  let dst ← t.row j
  let r ← (checkedStrcpy dst t.temp).mapError .overrun
  return { t with names := t.names.set j r }

/-- The body of the inner loop. -/
def compareRows (t : Table) (i j : ℕ) : Except SortFault Table := do
  let status ← t.compare i j
  if status > 0 then
    let t ← t.saveRow i
    let t ← t.copyRow i j
    t.restoreRow j
  else return t

/-- `for(;j<n;j++)` -/
def innerLoop (c : Counter n) (i j : ℕ) (t : Table) : Except SortFault Table :=
  if _hj : j < n then do
    let t ← t.compareRows i j
    innerLoop c i (c.next j) t
  else .ok t
termination_by n - j
decreasing_by
  rw [c.counts j _hj]
  omega

/-- `for(;i<n;i++) for(j=i+1;j<n;j++)` -/
def outerLoop (c : Counter n) (i : ℕ) (t : Table) : Except SortFault Table :=
  if _hi : i < n then do
    let t ← innerLoop c i (c.next i) t
    outerLoop c (c.next i) t
  else .ok t
termination_by n - i
decreasing_by
  rw [c.counts i _hi]
  omega

/-- The two loops from `i=0` on. -/
def sort (c : Counter n) (t : Table) : Except SortFault Table := outerLoop c 0 t

end Table

/-- The sort of `animal_ecosystem_start`, whose `int` counters have 31 bits for the values
    from zero on. -/
def animalEcosystemStartSort (t : Table) : Except SortFault Table :=
  t.sort (Counter.ofWidth 31 (by decide : 50 < 2 ^ 31))

/-- The sort of `main` in `sort_strings.c`, whose counters are of type `uint8_t`. -/
def sortStringsMain (t : Table) : Except SortFault Table :=
  t.sort (Counter.ofWidth 8 (by decide : 5 < 2 ^ 8))

/-- The table of `sort_strings.c`. -/
def sortStringsNames : Vector (Row 10) 5 :=
  #v["Vikrant", "Raj", "Nikhil", "Akash", "Rick"].map fun name => Row.ofString name (by decide)

namespace Sorting

/-- The bytes of a table and of `temp`. -/
def toTable (s : Sorting W n) : Table := ⟨s.names.toList.map Row.bytes, s.temp⟩

@[simp] theorem toTable_temp (s : Sorting W n) : s.toTable.temp = s.temp := rfl

theorem row_toTable (s : Sorting W n) (i : Fin n) :
    s.toTable.row i = .ok (s.names.get i).bytes := by
  have hget : s.toTable.names[(i : ℕ)]? = some (s.names.get i).bytes := by
    simp [toTable, Vector.get]
  rw [Table.row, hget]

theorem toTable_set (s : Sorting W n) (i : Fin n) (r : Row W) :
    { s.toTable with names := s.toTable.names.set i r.bytes } =
      toTable { s with names := s.names.set i r i.2 } := by
  simp [toTable, Vector.toList_set]

/-- `strcpy` from a row stays inside a destination of the same length. -/
theorem checkedStrcpy_row (dst : List UInt8) (hdst : dst.length = W) (src : Row W) :
    checkedStrcpy dst src.bytes = .ok (Row.copy dst hdst src).bytes := by
  refine checkedStrcpy_eq src.terminated ?_
  rw [hdst]
  exact (strBytes_length_lt src.terminated).trans_eq src.length_eq

theorem compare_toTable (s : Sorting W n) (i j : Fin n) :
    s.toTable.compare i j = .ok (strcmp (s.names.get i).bytes (s.names.get j).bytes) := by
  have hcmp := checkedStrcmp_eq (s.names.get i).terminated (s.names.get j).terminated
  rw [Table.compare, row_toTable, row_toTable]
  simp only [bind, Except.bind, hcmp, Except.mapError]

theorem saveRow_toTable (s : Sorting W n) (i : Fin n) :
    s.toTable.saveRow i =
      .ok ⟨s.toTable.names, (Row.copy s.temp s.temp_length (s.names.get i)).bytes⟩ := by
  rw [Table.saveRow, row_toTable]
  simp only [bind, Except.bind, toTable_temp, checkedStrcpy_row s.temp s.temp_length,
    Except.mapError]
  rfl

theorem copyRow_toTable (s : Sorting W n) (i j : Fin n) :
    s.toTable.copyRow i j =
      .ok (toTable { s with
        names := s.names.set i (overwrite (s.names.get i) (s.names.get j)) i.2 }) := by
  rw [Table.copyRow, row_toTable, row_toTable, ← toTable_set]
  simp only [bind, Except.bind, checkedStrcpy_row _ (s.names.get i).length_eq, Except.mapError]
  rfl

theorem restoreRow_toTable (s : Sorting W n) (j : Fin n) (temp : Row W)
    (htemp : s.temp = temp.bytes) :
    s.toTable.restoreRow j =
      .ok (toTable { s with names := s.names.set j (overwrite (s.names.get j) temp) j.2 }) := by
  rw [Table.restoreRow, row_toTable, ← toTable_set]
  simp only [bind, Except.bind, toTable_temp, htemp,
    checkedStrcpy_row _ (s.names.get j).length_eq, Except.mapError]
  rfl

/-- The body of the inner loop exchanges the rows that are out of order. -/
theorem compareRows_toTable (s : Sorting W n) (i j : Fin n) :
    s.toTable.compareRows i j = .ok (s.exchange i j).toTable := by
  rw [Table.compareRows, compare_toTable]
  simp only [bind, Except.bind]
  unfold exchange
  split
  · set temp := Row.copy s.temp s.temp_length (s.names.get i) with htemp
    set s1 : Sorting W n := ⟨s.names, temp.bytes, temp.length_eq⟩ with hs1
    set s2 : Sorting W n :=
      ⟨s.names.set i (overwrite (s.names.get i) (s.names.get j)) i.2, temp.bytes,
        temp.length_eq⟩ with hs2
    have hsave : s.toTable.saveRow i = .ok s1.toTable := saveRow_toTable s i
    have hcopy : s1.toTable.copyRow i j = .ok s2.toTable := copyRow_toTable s1 i j
    rw [hsave]
    simp only [hcopy]
    exact restoreRow_toTable s2 j temp rfl
  · rfl

theorem innerLoop_toTable (c : Counter n) (i : Fin n) (j : ℕ) (s : Sorting W n) :
    Table.innerLoop c i j s.toTable =
      .ok ((ExchangeSort.upFrom n j).foldl (exchange i) s).toTable := by
  by_cases hj : j ≤ n
  · induction hj using Nat.decreasingInduction generalizing s with
    | self =>
      rw [Table.innerLoop, dif_neg (lt_irrefl n), ExchangeSort.upFrom_eq_nil le_rfl]
      rfl
    | of_succ j hj ih =>
      have hbody := compareRows_toTable s i ⟨j, hj⟩
      rw [Table.innerLoop, dif_pos hj, c.counts j hj, ExchangeSort.upFrom_eq_cons hj,
        List.foldl_cons, hbody]
      exact ih _
  · rw [Table.innerLoop, dif_neg (by omega), ExchangeSort.upFrom_eq_nil (by omega)]
    rfl

theorem outerLoop_toTable (c : Counter n) {i : ℕ} (hi : i ≤ n) (s : Sorting W n) :
    Table.outerLoop c i s.toTable = .ok ((ExchangeSort.upFrom n i).foldl
      (fun s (i : Fin n) => (ExchangeSort.upFrom n (i + 1)).foldl (exchange i) s) s).toTable := by
  induction hi using Nat.decreasingInduction generalizing s with
  | self =>
    rw [Table.outerLoop, dif_neg (lt_irrefl n), ExchangeSort.upFrom_eq_nil le_rfl]
    rfl
  | of_succ i hi ih =>
    have hinner := innerLoop_toTable c ⟨i, hi⟩ (i + 1) s
    rw [Table.outerLoop, dif_pos hi, c.counts i hi, ExchangeSort.upFrom_eq_cons hi,
      List.foldl_cons, hinner]
    exact ih _

/-- The loops do what `Sorting.sort` does, without a fault. -/
theorem sort_toTable (c : Counter n) (s : Sorting W n) :
    s.toTable.sort c = .ok s.sort.toTable :=
  outerLoop_toTable c (Nat.zero_le n) s

/-- So do the loops of the two programs. -/
theorem animalEcosystemStartSort_toTable (s : Sorting W 50) :
    animalEcosystemStartSort s.toTable = .ok s.sort.toTable := sort_toTable _ s

theorem sortStringsMain_toTable (s : Sorting W 5) :
    sortStringsMain s.toTable = .ok s.sort.toTable := sort_toTable _ s

theorem map_str_toTable (s : Sorting W n) : s.toTable.names.map str = (strings s.names).toList := by
  rw [toTable, strings, Vector.toList_map, List.map_map]
  rfl

/-- Rows whose strings ascend are in `strcmp` order. -/
theorem pairwise_strcmp (s : Sorting W n) (h : (strings s.names).toList.Pairwise (· ≤ ·)) :
    s.toTable.names.Pairwise fun a b => strcmp a b ≤ 0 := by
  rw [← map_str_toTable, List.pairwise_map] at h
  refine List.Pairwise.imp_of_mem ?_ h
  intro a b ha hb hab
  obtain ⟨r, -, rfl⟩ := List.mem_map.mp ha
  obtain ⟨r', -, rfl⟩ := List.mem_map.mp hb
  rw [← not_lt, strcmp_pos_iff r.terminated r'.terminated]
  exact not_lt.mpr hab

end Sorting

/-- For every number of rows of every width the loops end without a fault; the rows are then
    strings again, in `strcmp` order, and their strings are those of the table before. -/
theorem sort_strings_ok (c : Counter n) (s : Sorting W n) :
    ∃ t, s.toTable.sort c = .ok t ∧ t.names.length = n ∧ t.temp.length = W ∧
      (∀ r ∈ t.names, r.length = W ∧ 0 ∈ r) ∧
      (t.names.Pairwise fun a b => strcmp a b ≤ 0) ∧
      (t.names.map str).Perm (s.toTable.names.map str) := by
  refine ⟨_, s.sort_toTable c, by simp [Sorting.toTable], s.sort.temp_length, ?_, ?_, ?_⟩
  · intro r hr
    obtain ⟨r', -, rfl⟩ := List.mem_map.mp hr
    exact ⟨r'.length_eq, r'.terminated⟩
  · apply Sorting.pairwise_strcmp
    rw [Sorting.strings_sort]
    exact ExchangeSort.sort_sorted _
  · rw [Sorting.map_str_toTable, Sorting.map_str_toTable, Sorting.strings_sort]
    exact Vector.perm_iff_toList_perm.mp (ExchangeSort.sort_perm _)

/-- The strings of `sort_strings.c`, sorted. -/
example : ExchangeSort.sort (Sorting.strings sortStringsNames) =
    Sorting.strings (#v["Akash", "Nikhil", "Raj", "Rick", "Vikrant"].map fun name =>
      (Row.ofString name (by decide) : Row 10)) := by
  decide +kernel

end Apes.Animals
