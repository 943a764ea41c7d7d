import Mathlib.Data.List.Lex
import Mathlib.Data.List.TakeWhile
import Mathlib.Algebra.Order.Group.Int

/-!
# Strings in memory

A string of C is the bytes of some memory up to the first NUL. `strcmp` compares the
bytes as unsigned numbers; `strcpy` writes a string and its NUL over the start of other
memory and leaves the rest as it was.

## Main definitions

- `str`: the characters of a string, as numbers
- `strcmp`, `strcpy`
- `CString`: a string of any length
- `Row`: an array of a given length that holds a string
-/

namespace Apes

/-- The bytes before the first NUL. -/
def strBytes (b : List UInt8) : List UInt8 := b.takeWhile (· ≠ 0)

/-- The characters of the string in `b`. -/
def str (b : List UInt8) : List ℕ := (strBytes b).map UInt8.toNat

@[simp] theorem strBytes_nul (b : List UInt8) : strBytes (0 :: b) = [] := by simp [strBytes]

@[simp] theorem strBytes_cons {x : UInt8} (hx : x ≠ 0) (b : List UInt8) :
    strBytes (x :: b) = x :: strBytes b := by
  simp [strBytes, hx]

@[simp] theorem str_nul (b : List UInt8) : str (0 :: b) = [] := by simp [str]

@[simp] theorem str_cons {x : UInt8} (hx : x ≠ 0) (b : List UInt8) :
    str (x :: b) = x.toNat :: str b := by
  simp [str, hx]

/-- The characters of a literal, without the NUL. -/
def textBytes (text : String) : List UInt8 := text.toList.map fun c => c.toNat.toUInt8

/-- What stands behind a NUL does not belong to the string. -/
theorem strBytes_append {a : List UInt8} (ha : 0 ∈ a) (b : List UInt8) :
    strBytes (a ++ b) = strBytes a := by
  induction a with
  | nil => cases ha
  | cons x a ih =>
    by_cases hx : x = 0
    · simp [hx]
    · have ha' : 0 ∈ a := (List.mem_cons.mp ha).resolve_left (Ne.symm hx)
      simp [hx, ih ha']

/-- A list without a NUL is the string that it is the start of. -/
theorem strBytes_append_nul {a : List UInt8} (ha : 0 ∉ a) (b : List UInt8) :
    strBytes (a ++ 0 :: b) = a := by
  induction a with
  | nil => simp
  | cons x a ih =>
    rw [List.mem_cons, not_or] at ha
    obtain ⟨hx, ha'⟩ := ha
    simp [Ne.symm hx, ih ha']

/-! ## `strcmp` -/

/-- `strcmp` on two strings, each given by the bytes from its first one on. It does not
    read behind a NUL; where one of the two has none, it reads behind the memory. -/
def strcmp : List UInt8 → List UInt8 → ℤ
  | x :: a, y :: b => if x = y then (if x = 0 then 0 else strcmp a b) else if x < y then -1 else 1
  | _, _ => 0

theorem str_cons_lt_of_lt {x y : UInt8} (hxy : x < y) (a b : List UInt8) :
    str (x :: a) < str (y :: b) := by
  have hy : y ≠ 0 := by
    rintro rfl
    exact UInt8.not_lt_zero hxy
  rw [str_cons hy]
  by_cases hx : x = 0
  · rw [hx, str_nul]
    exact List.nil_lt_cons _ _
  · rw [str_cons hx]
    exact List.cons_lt_cons_iff.mpr (Or.inl (UInt8.lt_iff_toNat_lt.mp hxy))

/-- `strcmp` orders the strings by their characters. -/
theorem strcmp_cases {a b : List UInt8} (ha : 0 ∈ a) (hb : 0 ∈ b) :
    strcmp a b < 0 ∧ str a < str b ∨ strcmp a b = 0 ∧ str a = str b ∨
      0 < strcmp a b ∧ str b < str a := by
  induction a generalizing b with
  | nil => cases ha
  | cons x a ih =>
    cases b with
    | nil => cases hb
    | cons y b =>
      by_cases hxy : x = y
      · subst hxy
        by_cases hx : x = 0
        · subst hx
          exact Or.inr (Or.inl ⟨by simp [strcmp], by simp⟩)
        · have ha' : 0 ∈ a := (List.mem_cons.mp ha).resolve_left (Ne.symm hx)
          have hb' : 0 ∈ b := (List.mem_cons.mp hb).resolve_left (Ne.symm hx)
          simp only [strcmp, if_true, if_neg hx, str_cons hx, List.cons.injEq, true_and]
          rcases ih ha' hb' with ⟨h, hlt⟩ | ⟨h, heq⟩ | ⟨h, hlt⟩
          · exact Or.inl ⟨h, List.cons_lt_cons_self.mpr hlt⟩
          · exact Or.inr (Or.inl ⟨h, heq⟩)
          · exact Or.inr (Or.inr ⟨h, List.cons_lt_cons_self.mpr hlt⟩)
      · simp only [strcmp, if_neg hxy]
        by_cases hlt : x < y
        · rw [if_pos hlt]
          exact Or.inl ⟨by decide, str_cons_lt_of_lt hlt a b⟩
        · have hgt : y < x := UInt8.lt_of_le_of_ne (UInt8.not_lt.mp hlt) (Ne.symm hxy)
          rw [if_neg hlt]
          exact Or.inr (Or.inr ⟨by decide, str_cons_lt_of_lt hgt b a⟩)

theorem strcmp_eq_zero_iff {a b : List UInt8} (ha : 0 ∈ a) (hb : 0 ∈ b) :
    strcmp a b = 0 ↔ str a = str b := by
  rcases strcmp_cases ha hb with ⟨h, hlt⟩ | ⟨h, heq⟩ | ⟨h, hlt⟩
  · exact iff_of_false h.ne hlt.ne
  · exact iff_of_true h heq
  · exact iff_of_false h.ne' hlt.ne'

theorem strcmp_pos_iff {a b : List UInt8} (ha : 0 ∈ a) (hb : 0 ∈ b) :
    0 < strcmp a b ↔ str b < str a := by
  rcases strcmp_cases ha hb with ⟨h, hlt⟩ | ⟨h, heq⟩ | ⟨h, hlt⟩
  · exact iff_of_false h.le.not_gt hlt.le.not_gt
  · exact iff_of_false h.le.not_gt heq.le.not_gt
  · exact iff_of_true h hlt

theorem strcmp_neg_iff {a b : List UInt8} (ha : 0 ∈ a) (hb : 0 ∈ b) :
    strcmp a b < 0 ↔ str a < str b := by
  rcases strcmp_cases ha hb with ⟨h, hlt⟩ | ⟨h, heq⟩ | ⟨h, hlt⟩
  · exact iff_of_true h hlt
  · exact iff_of_false h.ge.not_gt heq.ge.not_gt
  · exact iff_of_false h.le.not_gt hlt.le.not_gt

/-! ## `strcpy` -/

/-- `strcpy(dst, src)` -/
def strcpy (dst src : List UInt8) : List UInt8 :=
  strBytes src ++ 0 :: dst.drop ((strBytes src).length + 1)

/-- The NUL stands behind the characters. -/
theorem strBytes_length_lt {b : List UInt8} (hb : 0 ∈ b) : (strBytes b).length < b.length := by
  induction b with
  | nil => cases hb
  | cons x b ih =>
    by_cases hx : x = 0
    · simp [hx]
    · have := ih ((List.mem_cons.mp hb).resolve_left (Ne.symm hx))
      simp [hx, this]

theorem ne_zero_of_mem_strBytes {b : List UInt8} {x : UInt8} (h : x ∈ strBytes b) : x ≠ 0 := by
  simpa using List.mem_takeWhile_imp h

theorem strBytes_strcpy (dst src : List UInt8) : strBytes (strcpy dst src) = strBytes src := by
  rw [strcpy, strBytes, List.takeWhile_append_of_pos]
  · simp
  · intro x hx
    simpa using ne_zero_of_mem_strBytes hx

theorem str_strcpy (dst src : List UInt8) : str (strcpy dst src) = str src := by
  rw [str, strBytes_strcpy, str]

theorem zero_mem_strcpy (dst src : List UInt8) : 0 ∈ strcpy dst src := by simp [strcpy]

/-- Where the string and its NUL fit, `strcpy` writes nothing behind the destination. -/
theorem strcpy_length {dst src : List UInt8} (h : (strBytes src).length < dst.length) :
    (strcpy dst src).length = dst.length := by
  simp only [strcpy, List.length_append, List.length_cons, List.length_drop]
  omega

/-! ## Strings and arrays that hold a string -/

/-- What a `char *` to a string points to. -/
structure CString where
  bytes : List UInt8
  terminated : 0 ∈ bytes

def CString.str (c : CString) : List ℕ := Apes.str c.bytes

/-- An array of `W` characters that holds a string. -/
structure Row (W : ℕ) where
  bytes : List UInt8
  length_eq : bytes.length = W
  terminated : 0 ∈ bytes

namespace Row

variable {W : ℕ}

/-- The string in the row. -/
def str (r : Row W) : List ℕ := Apes.str r.bytes

/-- `strcpy` from one row to an array of the same length. -/
def copy (dst : List UInt8) (hdst : dst.length = W) (src : Row W) : Row W where
  bytes := strcpy dst src.bytes
  length_eq := by
    have hlt : (strBytes src.bytes).length < dst.length := by
      rw [hdst]
      exact (strBytes_length_lt src.terminated).trans_eq src.length_eq
    rw [strcpy_length hlt, hdst]
  terminated := zero_mem_strcpy _ _

@[simp] theorem str_copy (dst : List UInt8) (hdst : dst.length = W) (src : Row W) :
    (copy dst hdst src).str = src.str := str_strcpy _ _

/-- An initialiser `"…"`; what does not fit is cut off. -/
def ofString (text : String) (hW : 0 < W) : Row W where
  bytes :=
    let chars := (text.toList.map fun c => c.toNat.toUInt8).take (W - 1)
    chars ++ List.replicate (W - chars.length) 0
  length_eq := by
    simp only [List.length_append, List.length_replicate, List.length_take]
    omega
  terminated := by
    refine List.mem_append_right _ (List.mem_replicate.mpr ⟨?_, rfl⟩)
    simp only [List.length_take]
    omega

end Row

end Apes
