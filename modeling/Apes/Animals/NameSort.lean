import Apes.Lib.CString
import Apes.Lib.ExchangeSort

/-!
# The sort of the names

`animal_ecosystem_start` sorts its table of names in place: rows that are out of order are
exchanged by three `strcpy`s over an array of the same length. What stands behind the NUL of
a row stays where it was, so the rows are exchanged as strings only.
-/

namespace Apes.Animals

open Apes

variable {W n : ℕ}

/-- The table `names_t` and the array `temp`, which is not initialised. -/
structure Sorting (W n : ℕ) where
  names : Vector (Row W) n
  temp : List UInt8
  temp_length : temp.length = W

namespace Sorting

/-- `strcpy` from one row to another. -/
def overwrite (dst src : Row W) : Row W := Row.copy dst.bytes dst.length_eq src

@[simp] theorem str_overwrite (dst src : Row W) : (overwrite dst src).str = src.str :=
  Row.str_copy ..

/-- `if(strcmp(names_t[i],names_t[j]) > 0) { … }` -/
def exchange (i : Fin n) (s : Sorting W n) (j : Fin n) : Sorting W n :=
  if 0 < strcmp (s.names.get i).bytes (s.names.get j).bytes then
    let temp := Row.copy s.temp s.temp_length (s.names.get i)
    let names := s.names.set i (overwrite (s.names.get i) (s.names.get j)) i.2
    let names := names.set j (overwrite (names.get j) temp) j.2
    ⟨names, temp.bytes, temp.length_eq⟩
  else s

/-- The two loops. -/
def sort (s : Sorting W n) : Sorting W n :=
  (ExchangeSort.upFrom n 0).foldl
    (fun s (i : Fin n) => (ExchangeSort.upFrom n (i + 1)).foldl (exchange i) s) s

/-- The strings in the rows of a table. -/
def strings (names : Vector (Row W) n) : Vector (List ℕ) n := names.map Row.str

theorem strings_exchange (i : Fin n) (s : Sorting W n) (j : Fin n) :
    strings (s.exchange i j).names = ExchangeSort.exchange i (strings s.names) j := by
  have hcmp : 0 < strcmp s.names[i].bytes s.names[j].bytes ↔
      (strings s.names)[j] < (strings s.names)[i] := by
    simpa [strings, Row.str] using strcmp_pos_iff s.names[i].terminated s.names[j].terminated
  have hget : ∀ (v : Vector (Row W) n) (k : Fin n), v.get k = v[(k : ℕ)] := fun _ _ => rfl
  unfold exchange ExchangeSort.exchange
  split
  · next h =>
    rw [if_pos (hcmp.mp h)]
    ext1 k hk
    simp only [strings, Vector.getElem_map, Vector.getElem_set, Vector.getElem_swap, hget]
    by_cases hkj : (j : ℕ) = k
    · subst hkj
      by_cases hji : (j : ℕ) = i <;> simp [hji]
    · by_cases hki : (i : ℕ) = k
      · subst hki
        simp [hkj]
      · rw [if_neg hkj, if_neg hki, if_neg (Ne.symm hki), if_neg (Ne.symm hkj)]
  · next h => rw [if_neg (hcmp.not.mp h)]

theorem strings_sort (s : Sorting W n) :
    strings s.sort.names = ExchangeSort.sort (strings s.names) := by
  unfold sort ExchangeSort.sort
  symm
  refine List.foldl_hom (fun s : Sorting W n => strings s.names) fun s i => ?_
  exact List.foldl_hom (fun s : Sorting W n => strings s.names) fun s j =>
    (strings_exchange i s j).symm

end Sorting

end Apes.Animals
