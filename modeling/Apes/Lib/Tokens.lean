import Mathlib.Data.List.TakeWhile
import Mathlib.Algebra.Order.Ring.Nat
import Mathlib.Tactic.Ring

/-!
# Words and numbers in a text

`fgets` reads a line of a file into a buffer, `strtok` cuts words off a string, and `atoi`
reads a number. Strings are given by their bytes before the NUL.

## Main definitions

- `fgets`, `strtok`, `atoi`
- `decimal`: the value of the digits that a string starts with
-/

namespace Apes

/-! ## `fgets` -/

/-- The string that is read from a file in at most `m` characters: a newline ends it and
    belongs to it, a NUL ends it and does not. -/
def readLine : ℕ → List UInt8 → List UInt8
  | m + 1, c :: file => if c = 0 then [] else if c = 10 then [c] else c :: readLine m file
  | _, _ => []

/-- `fgets(buffer, size, file)`; the last element of the buffer is for the NUL. -/
def fgets (size : ℕ) (file : List UInt8) : List UInt8 := readLine (size - 1) file

/-- Characters that neither end the line nor the string. -/
def Plain (w : List UInt8) : Prop := ∀ c ∈ w, c ≠ 0 ∧ c ≠ 10

instance : DecidablePred Plain := fun w => List.decidableBAll (fun c => c ≠ 0 ∧ c ≠ 10) w

@[simp] theorem readLine_zero (file : List UInt8) : readLine 0 file = [] := by
  cases file <;> rfl

theorem readLine_append {w : List UInt8} (hw : Plain w) (m : ℕ) (file : List UInt8) :
    readLine m (w ++ file) = w.take m ++ readLine (m - w.length) file := by
  induction w generalizing m with
  | nil => simp
  | cons c w ih =>
    cases m with
    | zero => simp
    | succ m =>
      obtain ⟨h0, h10⟩ := hw c List.mem_cons_self
      have hw' : Plain w := fun x hx => hw x (List.mem_cons_of_mem c hx)
      simp [readLine, h0, h10, ih hw']

/-! ## `strtok` -/

/-- `strtok` with one separator `d`, from where the call before has stopped: the next word
    and where this call stops. -/
def strtok (d : UInt8) (s : List UInt8) : Option (List UInt8 × List UInt8) :=
  match s.dropWhile (· = d) with
  | [] => none
  | c :: s => some ((c :: s).takeWhile (· ≠ d), ((c :: s).dropWhile (· ≠ d)).drop 1)

@[simp] theorem strtok_nil (d : UInt8) : strtok d [] = none := rfl

/-- Separators in front of a word are skipped. -/
theorem strtok_replicate (d : UInt8) (n : ℕ) (s : List UInt8) :
    strtok d (List.replicate n d ++ s) = strtok d s := by
  rw [strtok, List.dropWhile_append_of_pos fun c hc => by simpa using List.eq_of_mem_replicate hc]
  rfl

/-- A word ends at a separator or at the end of the string. -/
theorem strtok_word {d : UInt8} {w : List UInt8} (hw : w ≠ []) (hd : d ∉ w) (r : List UInt8)
    (hr : r = [] ∨ ∃ r', r = d :: r') : strtok d (w ++ r) = some (w, r.drop 1) := by
  have hne : ∀ c ∈ w, (decide (c ≠ d)) = true := by
    intro c hc
    exact decide_eq_true fun h => hd (h ▸ hc)
  obtain ⟨c, w', rfl⟩ := List.exists_cons_of_ne_nil hw
  have hc : c ≠ d := of_decide_eq_true (hne c List.mem_cons_self)
  have hskip : (c :: w' ++ r).dropWhile (· = d) = c :: (w' ++ r) := by simp [hc]
  have hrest : r.takeWhile (· ≠ d) = [] ∧ r.dropWhile (· ≠ d) = r := by
    rcases hr with rfl | ⟨r', rfl⟩ <;> simp
  rw [strtok, hskip]
  simp only [← List.cons_append, List.takeWhile_append_of_pos hne,
    List.dropWhile_append_of_pos hne, hrest.1, hrest.2, List.append_nil]

/-! ## `atoi` -/

def IsDigit (c : UInt8) : Prop := 48 ≤ c.toNat ∧ c.toNat ≤ 57

instance : DecidablePred IsDigit := fun _ => inferInstanceAs (Decidable (_ ∧ _))

/-- The characters that `isspace` accepts. -/
def IsSpace (c : UInt8) : Prop := c.toNat = 32 ∨ 9 ≤ c.toNat ∧ c.toNat ≤ 13

instance : DecidablePred IsSpace := fun _ => inferInstanceAs (Decidable (_ ∨ _))

/-- The value of the digits at the start of a string, behind digits of value `v`. -/
def decimalFrom (v : ℕ) : List UInt8 → ℕ
  | [] => v
  | c :: s => if IsDigit c then decimalFrom (10 * v + (c.toNat - 48)) s else v

/-- The value of the digits at the start of a string. -/
def decimal (s : List UInt8) : ℕ := decimalFrom 0 s

/-- `atoi(s)`: white space, a sign, digits. -/
def atoi (s : List UInt8) : Int32 :=
  match s.dropWhile fun c => IsSpace c with
  | [] => 0
  | c :: s =>
    if c.toNat = '-'.toNat then -Int32.ofNat (decimal s)
    else if c.toNat = '+'.toNat then Int32.ofNat (decimal s)
    else Int32.ofNat (decimal (c :: s))

theorem decimalFrom_append {w : List UInt8} (hw : ∀ c ∈ w, IsDigit c) (v : ℕ) (s : List UInt8) :
    decimalFrom v (w ++ s) = decimalFrom (decimalFrom v w) s := by
  induction w generalizing v with
  | nil => rfl
  | cons c w ih =>
    have hc := hw c List.mem_cons_self
    simp only [List.cons_append, decimalFrom, if_pos hc]
    exact ih (fun x hx => hw x (List.mem_cons_of_mem c hx)) _

/-- Digits behind a number shift it to the left. -/
theorem decimalFrom_eq {w : List UInt8} (hw : ∀ c ∈ w, IsDigit c) (v : ℕ) :
    decimalFrom v w = v * 10 ^ w.length + decimal w := by
  induction w generalizing v with
  | nil => simp [decimal, decimalFrom]
  | cons c w ih =>
    have hc := hw c List.mem_cons_self
    have hw' : ∀ x ∈ w, IsDigit x := fun x hx => hw x (List.mem_cons_of_mem c hx)
    have hcons : ∀ u, decimalFrom u (c :: w) =
        (10 * u + (c.toNat - 48)) * 10 ^ w.length + decimal w := fun u => by
      rw [decimalFrom, if_pos hc, ih hw']
    rw [decimal, hcons, hcons, List.length_cons]
    ring

theorem decimal_append {a b : List UInt8} (ha : ∀ c ∈ a, IsDigit c) (hb : ∀ c ∈ b, IsDigit c) :
    decimal (a ++ b) = decimal a * 10 ^ b.length + decimal b := by
  rw [decimal, decimalFrom_append ha, decimalFrom_eq hb]
  rfl

/-- A number that is cut short is smaller, unless it is zero. -/
theorem decimal_eq_append_iff {a b : List UInt8} (ha : ∀ c ∈ a, IsDigit c)
    (hb : ∀ c ∈ b, IsDigit c) (hne : b ≠ []) :
    decimal a = decimal (a ++ b) ↔ decimal (a ++ b) = 0 := by
  have hten : 10 ^ 1 ≤ 10 ^ b.length :=
    Nat.pow_le_pow_right (by decide) (List.length_pos_iff.mpr hne)
  have hmul : decimal a * 10 ≤ decimal a * 10 ^ b.length := Nat.mul_le_mul_left _ hten
  rw [decimal_append ha hb]
  constructor
  · intro h
    have h0 : decimal a = 0 := by omega
    rw [← h, h0]
  · intro h
    omega

theorem decimal_le_append {a b : List UInt8} (ha : ∀ c ∈ a, IsDigit c)
    (hb : ∀ c ∈ b, IsDigit c) : decimal a ≤ decimal (a ++ b) := by
  rw [decimal_append ha hb]
  exact (Nat.le_mul_of_pos_right _ (Nat.pow_pos (by decide))).trans (Nat.le_add_right _ _)

/-- `atoi` reads a word of digits, and nothing behind it that does not start with one. -/
theorem atoi_digits {w : List UInt8} (hw : ∀ c ∈ w, IsDigit c) (hne : w ≠ []) (r : List UInt8)
    (hr : ∀ c ∈ r.head?, ¬ IsDigit c) : atoi (w ++ r) = Int32.ofNat (decimal w) := by
  have hval : decimal (w ++ r) = decimal w := by
    rw [decimal, decimalFrom_append hw]
    cases r with
    | nil => rfl
    | cons c r => exact if_neg (hr c rfl)
  obtain ⟨c, w', rfl⟩ := List.exists_cons_of_ne_nil hne
  have hc : 48 ≤ c.toNat ∧ c.toNat ≤ 57 := hw c List.mem_cons_self
  have hspace : ¬ IsSpace c := by
    rintro (h | h) <;> omega
  have hskip : (c :: w' ++ r).dropWhile (fun c => IsSpace c) = c :: (w' ++ r) := by simp [hspace]
  have hminus : '-'.toNat = 45 := rfl
  have hplus : '+'.toNat = 43 := rfl
  rw [atoi, hskip]
  simp only
  rw [if_neg (by omega), if_neg (by omega), ← List.cons_append, hval]

end Apes
