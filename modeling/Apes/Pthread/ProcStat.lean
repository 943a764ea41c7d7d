import Apes.Lib.CString
import Apes.Lib.Tokens
import Apes.Pthread.CpuUsage

/-!
# The parser of `/proc/stat` in `child2_thread_callback`

The thread reads at most 46 characters of the first line and cuts nine counters off them.
Counters that stand further behind in the line are not seen.

## Main definitions

- `sampleStat`: the code from `fgets` to the end of the parse loop
- `StatLine`: a first line with at least nine counters
- `StatLine.InReach`: the ninth counter lies within the characters that are read
-/

namespace Apes.Pthread

open Apes

/-- A fault of the parser. -/
inductive ParseFault
  /-- `atoi(NULL)` -/
  | nullToken
  deriving DecidableEq, Repr

/-- `for(;i<9;i++) { substr = strtok(NULL," "); cpu[i] = atoi(substr); }`, where `rest` is
    what `strtok` has left of the string. -/
def parseLoop (i : ℕ) (rest : List UInt8) (cpu : Cpu) : Except ParseFault Cpu :=
  if h : i < 9 then
    match strtok 32 rest with
    | none => .error .nullToken
    | some (substr, rest) => parseLoop (i + 1) rest (cpu.set i (atoi substr))
  else .ok cpu
termination_by 9 - i

/-- `substr = strtok(input_string," ")` and the loop. A `strtok` that finds no word leaves
    nothing for the next ones. -/
def parseStat (inputString : List UInt8) (cpu : Cpu) : Except ParseFault Cpu :=
  match strtok 32 inputString with
  | none => parseLoop 0 [] cpu
  | some (_, rest) => parseLoop 0 rest cpu

/-- `fgets(input_string,47,fptr1)` and what is made of it. -/
def sampleStat (stat : List UInt8) (cpu : Cpu) : Except ParseFault Cpu :=
  parseStat (fgets 47 stat) cpu

/-! ## First lines -/

/-- A counter of the line, with the spaces in front of it. -/
structure Field where
  /-- The spaces after the first one. -/
  spaces : ℕ
  digits : List UInt8
  nonempty : digits ≠ []
  digit : ∀ c ∈ digits, IsDigit c
  small : decimal digits < 2 ^ 31

namespace Field

def counter (f : Field) : ℕ := decimal f.digits

def text (f : Field) : List UInt8 := List.replicate (f.spaces + 1) 32 ++ f.digits

def width (f : Field) : ℕ := f.text.length

theorem width_eq (f : Field) : f.width = f.spaces + 1 + f.digits.length := by
  simp [width, text]

/-- The counter in `cpu`. -/
def value (f : Field) : Int32 := Int32.ofNat f.counter

/-- A counter of the digits of a text. -/
def ofText (spaces : ℕ) (digits : String)
    (h : textBytes digits ≠ [] ∧ ((textBytes digits).all fun c => IsDigit c) ∧
      decimal (textBytes digits) < 2 ^ 31) : Field where
  spaces
  digits := textBytes digits
  nonempty := h.1
  digit c hc := of_decide_eq_true (List.all_eq_true.mp h.2.1 c hc)
  small := h.2.2

end Field

/-- A line `cpu`, counters, newline. -/
structure StatLine where
  fields : List Field
  nine : 9 ≤ fields.length

namespace StatLine

/-- The characters of the line. -/
def text (L : StatLine) : List UInt8 := [99, 112, 117] ++ L.fields.flatMap Field.text ++ [10]

/-- The field of `cpu[k]`. -/
def field (L : StatLine) (k : Fin 9) : Field := L.fields.get ⟨k, k.2.trans_le L.nine⟩

/-- The number of characters up to the end of the `k`-th counter. -/
def endOf (L : StatLine) (k : ℕ) : ℕ := 3 + ((L.fields.take k).flatMap Field.text).length

/-- The ninth counter ends within the first 46 characters, or it is a zero of several
    digits that begins within them. -/
def InReach (L : StatLine) : Prop :=
  L.endOf 9 ≤ 46 ∨ (L.field (.last 8)).counter = 0 ∧ L.endOf 8 + (L.field (.last 8)).spaces + 1 < 46

end StatLine

/-! ## One counter -/

theorem Field.plain_text (f : Field) : Plain f.text := by
  intro c hc
  rcases List.mem_append.mp hc with hc | hc
  · rw [List.eq_of_mem_replicate hc]
    decide
  · have hdigit : 48 ≤ c.toNat ∧ c.toNat ≤ 57 := f.digit c hc
    constructor <;> rintro rfl <;> exact absurd hdigit (by decide)

theorem space_not_mem {w : List UInt8} (hw : ∀ c ∈ w, IsDigit c) : (32 : UInt8) ∉ w := fun h =>
  absurd (hw 32 h) (by decide)

theorem parseLoop_nine (rest : List UInt8) (cpu : Cpu) : parseLoop 9 rest cpu = .ok cpu := by
  rw [parseLoop, dif_neg (lt_irrefl 9)]

theorem parseLoop_of_none {i : ℕ} (hi : i < 9) {rest : List UInt8} (h : strtok 32 rest = none)
    (cpu : Cpu) : parseLoop i rest cpu = .error .nullToken := by
  rw [parseLoop, dif_pos hi, h]

theorem parseLoop_of_some {i : ℕ} (hi : i < 9) {rest substr rest' : List UInt8}
    (h : strtok 32 rest = some (substr, rest')) (cpu : Cpu) :
    parseLoop i rest cpu = parseLoop (i + 1) rest' (cpu.set i (atoi substr)) := by
  rw [parseLoop, dif_pos hi, h]

/-- A space at the front makes no difference. -/
theorem parseLoop_space (i : ℕ) (rest : List UInt8) (cpu : Cpu) :
    parseLoop i (32 :: rest) cpu = parseLoop i rest cpu := by
  have hskip : strtok 32 (32 :: rest) = strtok 32 rest := strtok_replicate 32 1 rest
  rw [parseLoop, parseLoop, hskip]

/-- A word between spaces, or the last one, is handed to `atoi`. -/
theorem parseLoop_word {i : ℕ} (hi : i < 9) (n : ℕ) {w : List UInt8} (hne : w ≠ [])
    (hw : (32 : UInt8) ∉ w) {r : List UInt8} (hr : r = [] ∨ ∃ y, r = 32 :: y) (cpu : Cpu) :
    parseLoop i (List.replicate n 32 ++ (w ++ r)) cpu =
      parseLoop (i + 1) r (cpu.set i (atoi w)) := by
  have htok := (strtok_replicate 32 n (w ++ r)).trans (strtok_word hne hw r hr)
  rw [parseLoop_of_some hi htok]
  rcases hr with rfl | ⟨y, rfl⟩
  · rfl
  · exact (parseLoop_space _ _ _).symm

/-- What stands behind a counter that is read whole: another one, or the end of the line for
    the last one that the loop reads. -/
def Follows (i : ℕ) (r : List UInt8) : Prop := (∃ r', r = 32 :: r') ∨ i = 8 ∧ ∃ r', r = 10 :: r'

/-- A counter that is read whole. -/
theorem parseLoop_whole (f : Field) {m i : ℕ} (hi : i < 9) (hm : f.width ≤ m) {r : List UInt8}
    (hr : Follows i r) (cpu : Cpu) :
    parseLoop i (readLine m (f.text ++ r)) cpu =
      parseLoop (i + 1) (readLine (m - f.width) r) (cpu.set i f.value) := by
  have hline : readLine m (f.text ++ r) =
      List.replicate (f.spaces + 1) 32 ++ (f.digits ++ readLine (m - f.width) r) := by
    rw [readLine_append f.plain_text, List.take_of_length_le hm, Field.text, List.append_assoc]
    rfl
  rw [hline]
  rcases hr with ⟨r', rfl⟩ | ⟨rfl, r', rfl⟩
  · have hatoi : atoi f.digits = f.value := by
      simpa [Field.value, Field.counter] using atoi_digits f.digit f.nonempty [] (by simp)
    have hrest : readLine (m - f.width) (32 :: r') = [] ∨
        ∃ y, readLine (m - f.width) (32 :: r') = 32 :: y := by
      cases m - f.width with
      | zero => exact Or.inl rfl
      | succ k => exact Or.inr ⟨readLine k r', rfl⟩
    rw [parseLoop_word hi _ f.nonempty (space_not_mem f.digit) hrest, hatoi]
  · -- the newline belongs to the last word, and `atoi` stops in front of it
    have hrest : readLine (m - f.width) (10 :: r') = [] ∨
        readLine (m - f.width) (10 :: r') = [10] := by
      cases m - f.width with
      | zero => exact Or.inl rfl
      | succ k => exact Or.inr rfl
    set y := readLine (m - f.width) (10 :: r') with hy
    have hword : (32 : UInt8) ∉ f.digits ++ y := by
      rw [List.mem_append, not_or]
      refine ⟨space_not_mem f.digit, ?_⟩
      rcases hrest with h | h <;> rw [h] <;> decide
    have hatoi : atoi (f.digits ++ y) = f.value := by
      refine atoi_digits f.digit f.nonempty y ?_
      intro c hc
      rcases hrest with h | h <;> rw [h] at hc <;> cases hc
      decide
    have hloop := parseLoop_word (by decide : 8 < 9) (f.spaces + 1)
      (List.append_ne_nil_of_left_ne_nil f.nonempty y) hword (Or.inl rfl) cpu
    rw [List.append_nil] at hloop
    rw [hloop, hatoi, parseLoop_nine, parseLoop_nine]

/-- Of a counter that is cut off in front of its digits nothing is left. -/
theorem parseLoop_lost (f : Field) {m i : ℕ} (hi : i < 9) (hm : m ≤ f.spaces + 1)
    (r : List UInt8) (cpu : Cpu) :
    parseLoop i (readLine m (f.text ++ r)) cpu = .error .nullToken := by
  have hwidth := f.width_eq
  have hline : readLine m (f.text ++ r) = List.replicate m 32 := by
    rw [readLine_append f.plain_text, ← Field.width, Nat.sub_eq_zero_of_le (by omega),
      readLine_zero,
      List.append_nil, Field.text, List.take_append_of_le_length (by simpa using hm),
      List.take_replicate, Nat.min_eq_left hm]
  refine parseLoop_of_none hi ?_ cpu
  rw [hline]
  simpa using strtok_replicate 32 m []

/-- Of a counter that is cut off within its digits the first ones are read, and after it
    nothing. -/
theorem parseLoop_cut (f : Field) {m i : ℕ} (hi : i < 9) (hm : f.spaces + 1 < m)
    (hcut : m < f.width) (r : List UInt8) (cpu : Cpu) :
    parseLoop i (readLine m (f.text ++ r)) cpu = parseLoop (i + 1) []
      (cpu.set i (Int32.ofNat (decimal (f.digits.take (m - (f.spaces + 1)))))) := by
  have hwidth := f.width_eq
  set w := f.digits.take (m - (f.spaces + 1)) with hw
  have hline : readLine m (f.text ++ r) = List.replicate (f.spaces + 1) 32 ++ w := by
    rw [readLine_append f.plain_text, ← Field.width, Nat.sub_eq_zero_of_le hcut.le, readLine_zero,
      List.append_nil, Field.text, List.take_append, List.length_replicate,
      List.take_of_length_le (by simpa using hm.le)]
  have hdigit : ∀ c ∈ w, IsDigit c := fun c hc => f.digit c (List.mem_of_mem_take hc)
  have hne : w ≠ [] := by
    rw [← List.length_pos_iff, hw, List.length_take]
    omega
  have hloop := parseLoop_word hi (f.spaces + 1) hne (space_not_mem hdigit) (Or.inl rfl) cpu
  rw [List.append_nil] at hloop
  have hatoi : atoi w = Int32.ofNat (decimal w) := by
    simpa using atoi_digits hdigit hne [] (by simp)
  rw [hline, hloop, hatoi]

/-! ## All counters -/

/-- The loop writes no element below `i`. -/
theorem parseLoop_getElem {i : ℕ} {rest : List UInt8} {cpu cpu' : Cpu}
    (h : parseLoop i rest cpu = .ok cpu') {k : ℕ} (hk : k < 9) (hki : k < i) :
    cpu'[k] = cpu[k] := by
  by_cases hi : i < 9
  · induction hn : 9 - i generalizing i rest cpu with
    | zero => omega
    | succ n ih =>
      cases htok : strtok 32 rest with
      | none =>
        rw [parseLoop_of_none hi htok] at h
        cases h
      | some p =>
        obtain ⟨substr, rest'⟩ := p
        rw [parseLoop_of_some hi htok] at h
        have hset : (cpu.set i (atoi substr))[k] = cpu[k] :=
          Vector.getElem_set_ne hi hk (by omega)
        by_cases hi' : i + 1 < 9
        · rw [ih h (by omega) hi' (by omega), hset]
        · obtain rfl : i = 8 := by omega
          rw [parseLoop_nine] at h
          rw [← Except.ok.inj h, hset]
  · rw [parseLoop, dif_neg hi] at h
    rw [Except.ok.inj h]

/-- The fields `fs` are read within `m` characters: all whole, or the last one is a zero
    that begins within them. -/
def Reaches : ℕ → List Field → Prop
  | _, [] => True
  | m, [f] => f.width ≤ m ∨ f.counter = 0 ∧ f.spaces + 1 < m
  | m, f :: g :: fs => f.width ≤ m ∧ Reaches (m - f.width) (g :: fs)

/-- The loop ends, and the elements from `i` on are the counters `fs`. -/
def Reads (i : ℕ) (fs : List Field) (result : Except ParseFault Cpu) : Prop :=
  ∃ c, result = .ok c ∧ c.toList.drop i = fs.map Field.value

theorem int32_ofNat_inj {a b : ℕ} (ha : a < 2 ^ 31) (hb : b < 2 ^ 31) :
    Int32.ofNat a = Int32.ofNat b ↔ a = b := by
  rw [← Int32.toInt_inj, Int32.toInt_ofNat_of_lt ha, Int32.toInt_ofNat_of_lt hb, Int.natCast_inj]

/-- A counter that is cut off within its digits is right only if it is zero. -/
theorem Field.take_eq_value_iff (f : Field) {n : ℕ} (hn : n < f.digits.length) :
    Int32.ofNat (decimal (f.digits.take n)) = f.value ↔ f.counter = 0 := by
  have ha : ∀ c ∈ f.digits.take n, IsDigit c := fun c hc => f.digit c (List.mem_of_mem_take hc)
  have hb : ∀ c ∈ f.digits.drop n, IsDigit c := fun c hc => f.digit c (List.mem_of_mem_drop hc)
  have hne : f.digits.drop n ≠ [] := by
    rw [← List.length_pos_iff, List.length_drop]
    omega
  have hle := decimal_le_append ha hb
  have heq := decimal_eq_append_iff ha hb hne
  rw [List.take_append_drop] at hle heq
  rw [Field.value, Field.counter, int32_ofNat_inj (hle.trans_lt f.small) f.small, heq]

/-- The last field is read if it is whole, or a zero that begins in time. -/
theorem reads_last (f : Field) (m : ℕ) {r : List UInt8} (hr : Follows 8 r) (cpu : Cpu) :
    Reads 8 [f] (parseLoop 8 (readLine m (f.text ++ r)) cpu) ↔
      f.width ≤ m ∨ f.counter = 0 ∧ f.spaces + 1 < m := by
  have hdrop : ∀ v, (cpu.set 8 v).toList.drop 8 = [v] := by
    intro v
    rw [List.drop_eq_getElem_cons (by simp)]
    simp
  by_cases hm : f.width ≤ m
  · rw [parseLoop_whole f (by decide) hm hr, parseLoop_nine]
    exact iff_of_true ⟨_, rfl, hdrop _⟩ (Or.inl hm)
  · by_cases hlost : m ≤ f.spaces + 1
    · rw [parseLoop_lost f (by decide) hlost]
      refine iff_of_false ?_ (by omega)
      rintro ⟨c, hc, -⟩
      cases hc
    · have hwidth := f.width_eq
      rw [parseLoop_cut f (by decide) (by omega) (by omega), parseLoop_nine]
      have hvalue := f.take_eq_value_iff (n := m - (f.spaces + 1)) (by omega)
      constructor
      · rintro ⟨c, hc, hval⟩
        rw [← Except.ok.inj hc, hdrop, List.map_singleton, List.singleton_inj] at hval
        exact Or.inr ⟨hvalue.mp hval, by omega⟩
      · rintro (h | ⟨h, -⟩)
        · exact absurd h hm
        · refine ⟨_, rfl, ?_⟩
          rw [hdrop, hvalue.mpr h]
          rfl

/-- The loop reads the fields if and only if they lie within the characters of the line
    that it is given. -/
theorem reads_iff (fs : List Field) {i : ℕ} (hi : i + fs.length = 9) (hne : fs ≠ []) (m : ℕ)
    {r : List UInt8} (hr : Follows 8 r) (cpu : Cpu) :
    Reads i fs (parseLoop i (readLine m (fs.flatMap Field.text ++ r)) cpu) ↔ Reaches m fs := by
  induction fs generalizing i m cpu with
  | nil => exact absurd rfl hne
  | cons f fs ih =>
    cases fs with
    | nil =>
      obtain rfl : i = 8 := by simpa using hi
      rw [List.flatMap_singleton]
      exact reads_last f m hr cpu
    | cons g fs =>
      simp only [List.length_cons] at hi
      have hi9 : i < 9 := by omega
      -- the next field starts with a space
      have hnext : Follows i ((g :: fs).flatMap Field.text ++ r) := Or.inl ⟨_, rfl⟩
      have ih := ih (i := i + 1) (by simp only [List.length_cons]; omega) (by simp)
        (m - f.width) (cpu.set i f.value)
      rw [List.flatMap_cons, List.append_assoc]
      by_cases hm : f.width ≤ m
      · rw [parseLoop_whole f hi9 hm hnext]
        have hreaches : Reaches m (f :: g :: fs) ↔ Reaches (m - f.width) (g :: fs) :=
          and_iff_right hm
        rw [hreaches, ← ih]
        constructor
        · rintro ⟨c, hc, hval⟩
          rw [List.drop_eq_getElem_cons (by simpa using hi9), List.map_cons] at hval
          exact ⟨c, hc, (List.cons.inj hval).2⟩
        · rintro ⟨c, hc, hval⟩
          refine ⟨c, hc, ?_⟩
          rw [List.drop_eq_getElem_cons (by simpa using hi9), List.map_cons, hval,
            Vector.getElem_toList, parseLoop_getElem hc hi9 (by omega), Vector.getElem_set_self]
      · refine iff_of_false ?_ (fun h => hm h.1)
        rintro ⟨c, hc, -⟩
        by_cases hlost : m ≤ f.spaces + 1
        · rw [parseLoop_lost f hi9 hlost] at hc
          cases hc
        · rw [parseLoop_cut f hi9 (by omega) (by omega),
            parseLoop_of_none (by omega) (strtok_nil 32)] at hc
          cases hc

theorem reaches_concat (fs : List Field) (f : Field) (m : ℕ) :
    Reaches m (fs ++ [f]) ↔ (fs.flatMap Field.text).length + f.width ≤ m ∨
      f.counter = 0 ∧ (fs.flatMap Field.text).length + f.spaces + 1 < m := by
  induction fs generalizing m with
  | nil => simp [Reaches]
  | cons g fs ih =>
    have hcons : Reaches m (g :: (fs ++ [f])) ↔
        g.width ≤ m ∧ Reaches (m - g.width) (fs ++ [f]) := by
      cases fs <;> rfl
    rw [List.cons_append, hcons, ih, List.flatMap_cons, List.length_append, ← Field.width]
    by_cases hzero : f.counter = 0 <;> simp only [hzero, true_and, false_and, or_false] <;> omega

namespace StatLine

variable (L : StatLine)

theorem take_nine : L.fields.take 9 = L.fields.take 8 ++ [L.field (.last 8)] := by
  have h8 : 8 < L.fields.length := L.nine
  exact (List.take_concat_get' L.fields 8 h8).symm

/-- What stands behind the nine counters that are read. -/
theorem follows (rest : List UInt8) :
    Follows 8 ((L.fields.drop 9).flatMap Field.text ++ 10 :: rest) := by
  cases L.fields.drop 9 with
  | nil => exact Or.inr ⟨rfl, rest, rfl⟩
  | cons f fs => exact Or.inl ⟨_, rfl⟩

theorem inReach_iff : L.InReach ↔ Reaches 43 (L.fields.take 9) := by
  rw [take_nine, reaches_concat, InReach, endOf, endOf, take_nine, List.flatMap_append,
    List.flatMap_singleton, List.length_append, ← Field.width]
  by_cases hzero : (L.field (.last 8)).counter = 0 <;>
    simp only [hzero, true_and, false_and, or_false] <;> omega

/-- `sampleStat` runs the loop on the counters, behind the word `cpu`. -/
theorem sampleStat_text (rest : List UInt8) (cpu : Cpu) :
    sampleStat (L.text ++ rest) cpu =
      parseLoop 0 (readLine 43 ((L.fields.take 9).flatMap Field.text ++
        ((L.fields.drop 9).flatMap Field.text ++ 10 :: rest))) cpu := by
  have hsplit : L.text ++ rest = [99, 112, 117] ++ ((L.fields.take 9).flatMap Field.text ++
      ((L.fields.drop 9).flatMap Field.text ++ 10 :: rest)) := by
    rw [← List.append_assoc ((L.fields.take 9).flatMap _), ← List.flatMap_append,
      List.take_append_drop, text]
    simp
  have hcpu : Plain [99, 112, 117] := by decide
  have hspace : ∃ y, (L.fields.take 9).flatMap Field.text ++
      ((L.fields.drop 9).flatMap Field.text ++ 10 :: rest) = 32 :: y := by
    have hlen : (L.fields.take 9).length = 9 := by simp [L.nine]
    cases h : L.fields.take 9 with
    | nil =>
      rw [h] at hlen
      cases hlen
    | cons f fs => exact ⟨_, rfl⟩
  obtain ⟨y, hy⟩ := hspace
  have htok : strtok 32 ([99, 112, 117] ++ 32 :: readLine 42 y) =
      some ([99, 112, 117], readLine 42 y) :=
    strtok_word (by simp) (by decide) _ (Or.inr ⟨_, rfl⟩)
  have hline : readLine 43 (32 :: y) = 32 :: readLine 42 y := rfl
  have hread : fgets 47 (L.text ++ rest) = [99, 112, 117] ++ 32 :: readLine 42 y := by
    rw [hsplit, hy, fgets, readLine_append hcpu]
    rfl
  rw [sampleStat, parseStat, hread, htok, hy, hline, parseLoop_space]

theorem length_take_nine : (L.fields.take 9).length = 9 := by
  rw [List.length_take, Nat.min_eq_left L.nine]

/-- The array holds the nine counters. -/
theorem toList_eq_iff (c : Cpu) : c.toList = (L.fields.take 9).map Field.value ↔
    ∀ k : Fin 9, (c.get k).toInt = (L.field k).counter := by
  have hvalue : ∀ k : Fin 9, (L.field k).value.toInt = (L.field k).counter := fun k =>
    Int32.toInt_ofNat_of_lt (L.field k).small
  have hfield : ∀ (k : ℕ) (hk : k < 9) (hk' : k < ((L.fields.take 9).map Field.value).length),
      ((L.fields.take 9).map Field.value)[k] = (L.field ⟨k, hk⟩).value := by
    intro k hk hk'
    rw [List.getElem_map, List.getElem_take]
    rfl
  constructor
  · intro h k
    have hk : (c.get k) = (L.field k).value := by
      rw [← hfield k k.2 (by rw [List.length_map, length_take_nine]; exact k.2)]
      simp only [← h]
      rfl
    rw [hk, hvalue]
  · intro h
    apply List.ext_getElem (by simp [L.nine])
    intro k hk hk'
    have hk9 : k < 9 := by simpa using hk
    rw [hfield k hk9, ← Int32.toInt_inj, hvalue, ← h ⟨k, hk9⟩]
    rfl

/-- The parser reads the nine counters, and passes no NULL to `atoi`, if and only if the
    ninth one lies within the characters that are read. -/
theorem sampleStat_reads_iff (rest : List UInt8) (cpu : Cpu) :
    (∃ c, sampleStat (L.text ++ rest) cpu = .ok c ∧
      ∀ k : Fin 9, (c.get k).toInt = (L.field k).counter) ↔ L.InReach := by
  have hne : L.fields.take 9 ≠ [] := by
    rw [← List.length_pos_iff, length_take_nine]
    decide
  have hlen : 0 + (L.fields.take 9).length = 9 := by rw [length_take_nine]
  rw [inReach_iff, ← reads_iff _ hlen hne 43 (L.follows rest) cpu, ← sampleStat_text, Reads]
  simp only [List.drop_zero, toList_eq_iff]

/-- A line within the 46 characters whose counters add up to 2^31. -/
example : (sampleStat (textBytes "cpu  1073741824 0 0 1073741824 0 0 0 0 0\n")
    (Vector.replicate 9 0)).map Vector.toList =
      .ok [1073741824, 0, 0, 1073741824, 0, 0, 0, 0, 0] := by
  decide +kernel

/-- The line of a machine that has been up for some days. -/
def someDays : StatLine where
  fields := [.ofText 1 "10132153" (by decide), .ofText 0 "290696" (by decide),
    .ofText 0 "3084719" (by decide), .ofText 0 "46828483" (by decide),
    .ofText 0 "16683" (by decide), .ofText 0 "0" (by decide), .ofText 0 "25195" (by decide),
    .ofText 0 "0" (by decide), .ofText 0 "175628" (by decide), .ofText 0 "0" (by decide)]
  nine := by decide

/-- Six counters of the line lie within the 46 characters; the seventh `strtok` returns
    NULL. -/
theorem sampleStat_fails_someDays :
    sampleStat someDays.text (Vector.replicate 9 0) = .error .nullToken ∧
      ¬ ∃ c, sampleStat someDays.text (Vector.replicate 9 0) = .ok c ∧
        ∀ k : Fin 9, (c.get k).toInt = (someDays.field k).counter := by
  have h : sampleStat someDays.text (Vector.replicate 9 0) = .error .nullToken := by
    decide +kernel
  refine ⟨h, ?_⟩
  rintro ⟨c, hc, -⟩
  rw [h] at hc
  cases hc

end StatLine

end Apes.Pthread
