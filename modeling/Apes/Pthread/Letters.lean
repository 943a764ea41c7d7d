import Mathlib.Data.Fintype.Basic
import Mathlib.Data.Vector.Basic
import Mathlib.Algebra.Order.Group.Int

/-!
# The character loop of `child1_thread_callback`

The thread counts the letters of a file in `count_array`, upper and lower case together. A
`char` above 127 is negative where `char` is a signed type; the ranges of the letters are
the same for both types.
-/

namespace Apes.Pthread

/-- The type of a plain `char`. -/
inductive CharType
  | signed
  | unsigned
  deriving DecidableEq, Repr

/-- The value of a `char` in an expression. -/
def CharType.value : CharType → UInt8 → ℤ
  | .signed, b => b.toInt8.toInt
  | .unsigned, b => b.toNat

/-- An access to `count_array[pos]` that is not one to its 26 elements. -/
inductive LetterFault
  | index (pos : ℤ)
  deriving DecidableEq, Repr

/-- `int count_array[26]` -/
abbrev CountArray : Type := Vector Int32 26

/-- `count_array[pos]++` -/
def increment (a : CountArray) (pos : ℤ) : Except LetterFault CountArray :=
  if h : 0 ≤ pos ∧ pos < 26 then .ok (a.set pos.toNat (a[pos.toNat] + 1))
  else .error (.index pos)

/-- The body of the character loop: 97 to 122 are the lowercase letters, 65 to 90 the
    uppercase ones. -/
def countChar (t : CharType) (a : CountArray) (b : UInt8) : Except LetterFault CountArray :=
  if t.value b ≥ 97 ∧ t.value b ≤ 122 then increment a (t.value b - 97)
  else if t.value b ≥ 65 ∧ t.value b ≤ 90 then increment a (t.value b + 32 - 97)
  else .ok a

/-- `for(;i<s;i++)` without a signal. -/
def characterLoop (t : CharType) (str : List UInt8) (i : ℕ) (a : CountArray) :
    Except LetterFault CountArray :=
  if h : i < str.length then do
    let a ← countChar t a str[i]
    characterLoop t str (i + 1) a
  else .ok a
termination_by str.length - i

/-- `int count_array[26] = {0}` -/
def noLetters : CountArray := Vector.replicate 26 0

/-! ## What is counted -/

/-- The byte is the letter `k` of the alphabet, in lower or in upper case. -/
def IsLetter (k : Fin 26) (b : UInt8) : Prop :=
  b.toNat = 'a'.toNat + k ∨ b.toNat = 'A'.toNat + k

instance (k : Fin 26) : DecidablePred (IsLetter k) := fun _ => inferInstanceAs (Decidable (_ ∨ _))

/-- The number of positions that hold the letter `k`. -/
def letterCount (k : Fin 26) (str : List UInt8) : ℕ := str.countP fun b => IsLetter k b

/-- The numbers of all letters, as `int`s. -/
def tally (str : List UInt8) : CountArray :=
  Vector.ofFn fun k => Int32.ofNat (letterCount k str)

theorem value_eq_or (t : CharType) (b : UInt8) :
    t.value b = b.toNat ∨ 128 ≤ b.toNat ∧ t.value b = b.toNat - 256 := by
  cases t with
  | unsigned => exact Or.inl rfl
  | signed =>
    have h : CharType.signed.value b = b.toBitVec.toInt := rfl
    rw [h, BitVec.toInt_eq_toNat_cond]
    split
    · exact Or.inl rfl
    · next hge =>
      refine Or.inr ⟨?_, rfl⟩
      have : b.toBitVec.toNat = b.toNat := rfl
      omega

/-- Both types of `char` see the same letters. -/
theorem value_between_iff (t : CharType) (b : UInt8) (lo hi : ℕ) (hlo : 0 < lo)
    (hhi : hi < 128) : t.value b ≥ lo ∧ t.value b ≤ hi ↔ lo ≤ b.toNat ∧ b.toNat ≤ hi := by
  have hlt := b.toNat_lt
  rcases value_eq_or t b with h | ⟨h, h'⟩ <;> omega

theorem value_of_lt (t : CharType) {b : UInt8} (h : b.toNat < 128) : t.value b = b.toNat := by
  rcases value_eq_or t b with h' | ⟨h', -⟩
  · exact h'
  · omega

@[simp] theorem tally_getElem (str : List UInt8) (k : ℕ) (hk : k < 26) :
    (tally str)[k] = Int32.ofNat (letterCount ⟨k, hk⟩ str) := by
  simp [tally]

theorem letterCount_concat (k : Fin 26) (str : List UInt8) (b : UInt8) :
    letterCount k (str ++ [b]) = letterCount k str + if IsLetter k b then 1 else 0 := by
  simp [letterCount, List.countP_append, List.countP_singleton]

theorem tally_nil : tally [] = noLetters := by
  ext k hk
  simp [tally, noLetters, letterCount]

/-- A byte that is no letter leaves the numbers as they are. -/
theorem tally_concat_of_not {str : List UInt8} {b : UInt8} (h : ∀ k, ¬ IsLetter k b) :
    tally (str ++ [b]) = tally str := by
  ext k hk
  rw [tally_getElem, tally_getElem, letterCount_concat, if_neg (h _), Nat.add_zero]

theorem isLetter_iff (k : Fin 26) (b : UInt8) :
    IsLetter k b ↔ b.toNat = 97 + k ∨ b.toNat = 65 + k := Iff.rfl

/-- A byte is one letter at most. -/
theorem IsLetter.unique {k m : Fin 26} {b : UInt8} (hk : IsLetter k b) (hm : IsLetter m b) :
    m = k := by
  rw [isLetter_iff] at hk hm
  omega

/-- A letter raises its own number. -/
theorem increment_tally {str : List UInt8} {b : UInt8} {k : Fin 26} (h : IsLetter k b) :
    increment (tally str) k = .ok (tally (str ++ [b])) := by
  have hrange : 0 ≤ (k : ℤ) ∧ (k : ℤ) < 26 := by omega
  rw [increment, dif_pos hrange]
  apply congrArg Except.ok
  apply Vector.ext
  intro m hm
  simp only [Vector.getElem_set, tally_getElem, letterCount_concat, Int.toNat_natCast]
  by_cases hmk : (k : ℕ) = m
  · have hk : (⟨m, hm⟩ : Fin 26) = k := Fin.ext hmk.symm
    rw [if_pos hmk, hk, if_pos h, Int32.ofNat_add]
    rfl
  · rw [if_neg hmk, if_neg, Nat.add_zero]
    exact fun hm' => hmk (congrArg Fin.val (h.unique hm')).symm

/-- The body of the loop counts the byte in `count_array`, and never leaves it. -/
theorem countChar_tally (t : CharType) (str : List UInt8) (b : UInt8) :
    countChar t (tally str) b = .ok (tally (str ++ [b])) := by
  have hlower : t.value b ≥ 97 ∧ t.value b ≤ 122 ↔ _ :=
    value_between_iff t b 97 122 (by decide) (by decide)
  have hupper : t.value b ≥ 65 ∧ t.value b ≤ 90 ↔ _ :=
    value_between_iff t b 65 90 (by decide) (by decide)
  unfold countChar
  by_cases hl : 97 ≤ b.toNat ∧ b.toNat ≤ 122
  · have hpos : t.value b - 97 = ((⟨b.toNat - 97, by omega⟩ : Fin 26) : ℤ) := by
      rw [value_of_lt t (by omega)]
      exact (Int.ofNat_sub hl.1).symm
    rw [if_pos (hlower.mpr hl), hpos]
    exact increment_tally (Or.inl (Nat.add_sub_of_le hl.1).symm)
  · rw [if_neg (hlower.not.mpr hl)]
    by_cases hu : 65 ≤ b.toNat ∧ b.toNat ≤ 90
    · have hpos : t.value b + 32 - 97 = ((⟨b.toNat - 65, by omega⟩ : Fin 26) : ℤ) := by
        rw [value_of_lt t (by omega)]
        dsimp only
        omega
      rw [if_pos (hupper.mpr hu), hpos]
      exact increment_tally (Or.inr (Nat.add_sub_of_le hu.1).symm)
    · rw [if_neg (hupper.not.mpr hu), tally_concat_of_not]
      intro k hk
      rw [isLetter_iff] at hk
      omega

/-- From `i` on the loop counts the rest of the text. -/
theorem characterLoop_tally (t : CharType) (str : List UInt8) {i : ℕ} (hi : i ≤ str.length) :
    characterLoop t str i (tally (str.take i)) = .ok (tally str) := by
  induction hi using Nat.decreasingInduction with
  | self => rw [characterLoop, dif_neg (lt_irrefl _), List.take_length]
  | of_succ i hi ih =>
    rw [characterLoop, dif_pos hi, countChar_tally, List.take_concat_get' str i hi]
    exact ih

/-- The loop never leaves `count_array`, whatever the bytes are, and it ends with the number
    of positions of every letter where these fit an `int`. -/
theorem characterLoop_counts (t : CharType) (str : List UInt8)
    (h : ∀ k, letterCount k str < 2 ^ 31) :
    ∃ a, characterLoop t str 0 noLetters = .ok a ∧
      ∀ k : Fin 26, (a.get k).toInt = letterCount k str := by
  refine ⟨tally str, ?_, ?_⟩
  · rw [← tally_nil]
    exact characterLoop_tally t str (Nat.zero_le _)
  · intro k
    have hget : (tally str).get k = Int32.ofNat (letterCount k str) := tally_getElem str k k.2
    rw [hget, Int32.toInt_ofNat_of_lt (h k)]

/-- The bytes around the two ranges, an `ä` and two letters. -/
theorem characterLoop_counts_bounds :
    let str : List UInt8 := [64, 91, 96, 123, 228, 97, 90, 65]
    ∃ a, characterLoop .signed str 0 noLetters = .ok a ∧
      ∀ k : Fin 26, (a.get k).toInt = if k = 0 then 2 else if k = 25 then 1 else 0 := by
  intro str
  obtain ⟨a, ha, hcount⟩ := characterLoop_counts .signed str (by decide)
  refine ⟨a, ha, ?_⟩
  simp only [hcount]
  decide

end Apes.Pthread
