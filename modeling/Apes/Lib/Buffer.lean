import Apes.Lib.Tokens

/-!
# Memory that has not been initialised

The elements of an array from `malloc` have no value before they are written. Reading such
an element is a fault, and so is every access behind the last element.

## Main definitions

- `store`: elements are written from the start of the array on
- `loadString`: a string is read up to its NUL
- `takeLine`, `fgetsInto`: `fgets`, with the array it writes to
-/

namespace Apes

/-- A cell without a value has not been initialised. -/
abbrev Cells (α : Type*) : Type _ := List (Option α)

inductive CellFault
  /-- An access behind the last cell. -/
  | outside
  | uninitialised
  deriving DecidableEq, Repr

/-- `malloc(n)` -/
def malloc (α : Type*) (n : ℕ) : Cells α := List.replicate n none

theorem malloc_length (α : Type*) (n : ℕ) : (malloc α n).length = n := List.length_replicate

theorem malloc_drop (α : Type*) (n k : ℕ) : (malloc α n).drop k = malloc α (n - k) :=
  List.drop_replicate

section Store

variable {α : Type*}

/-- The elements are written one after the other, from the first cell on. -/
def store : Cells α → List α → Except CellFault (Cells α)
  | cells, [] => .ok cells
  | [], _ :: _ => .error .outside
  | _ :: cells, x :: xs => (store cells xs).map (some x :: ·)

/-- What fits is stored, and the cells behind it stay as they are. -/
theorem store_of_le {cells : Cells α} {xs : List α} (h : xs.length ≤ cells.length) :
    store cells xs = .ok (xs.map some ++ cells.drop xs.length) := by
  induction xs generalizing cells with
  | nil =>
    rw [store]
    rfl
  | cons x xs ih =>
    cases cells with
    | nil => exact absurd h (Nat.not_succ_le_zero _)
    | cons c cells =>
      rw [store, ih (Nat.le_of_succ_le_succ h)]
      rfl

theorem store_of_lt {cells : Cells α} {xs : List α} (h : cells.length < xs.length) :
    store cells xs = .error .outside := by
  induction xs generalizing cells with
  | nil => exact absurd h (Nat.not_lt_zero _)
  | cons x xs ih =>
    cases cells with
    | nil => rfl
    | cons c cells =>
      rw [store, ih (Nat.lt_of_succ_lt_succ h)]
      rfl

/-- Storing what is there already changes nothing. -/
theorem store_again (xs : List α) (cells : Cells α) :
    store (xs.map some ++ cells) xs = .ok (xs.map some ++ cells) := by
  induction xs with
  | nil => rw [store]
  | cons x xs ih =>
    rw [List.map_cons, List.cons_append, store, ih]
    rfl

end Store

/-! ## Strings -/

/-- The bytes before the NUL; the NUL is read as well. -/
def loadString : Cells UInt8 → Except CellFault (List UInt8)
  | [] => .error .outside
  | none :: _ => .error .uninitialised
  | some x :: cells => if x = 0 then .ok [] else (loadString cells).map (x :: ·)

/-- A string with its NUL is read back, whatever is behind it. -/
theorem loadString_string {xs : List UInt8} (hxs : 0 ∉ xs) (cells : Cells UInt8) :
    loadString ((xs ++ [0]).map some ++ cells) = .ok xs := by
  induction xs with
  | nil => rfl
  | cons x xs ih =>
    rw [List.mem_cons, not_or] at hxs
    obtain ⟨hx, hxs⟩ := hxs
    rw [List.cons_append, List.map_cons, List.cons_append, loadString, if_neg (Ne.symm hx),
      ih hxs]
    rfl

theorem loadString_malloc (n : ℕ) :
    loadString (malloc UInt8 (n + 1)) = .error .uninitialised := rfl

/-! ## `fgets` -/

/-- The characters of a file that are taken in a call for at most `m` of them. A newline is
    the last one; in contrast to `readLine`, a NUL is a character like others. -/
def takeLine : ℕ → List UInt8 → List UInt8
  | m + 1, c :: file => if c = 10 then [c] else c :: takeLine m file
  | _, _ => []

/-- `fgets(cells, size, file)`; the result is the array, or nothing for `NULL`. -/
def fgetsInto (cells : Cells UInt8) : ℕ → List UInt8 → Except CellFault (Option (Cells UInt8))
  | 0, _ => .ok none
  | 1, _ => (store cells [0]).map some
  | _ + 2, [] => .ok none
  | m + 2, file => (store cells (takeLine (m + 1) file ++ [0])).map some

/-- A line is taken whole where it is short enough. -/
theorem takeLine_plain {w : List UInt8} (hw : Plain w) : takeLine w.length w = w := by
  induction w with
  | nil => rfl
  | cons c w ih =>
    have hw' : Plain w := fun x hx => hw x (List.mem_cons_of_mem c hx)
    rw [List.length_cons, takeLine, if_neg (hw c List.mem_cons_self).2, ih hw']

/-- A file of one line is stored whole, where the call allows for its length. -/
theorem fgetsInto_plain {w : List UInt8} (hw : Plain w) (cells : Cells UInt8) :
    fgetsInto cells (w.length + 1) w = (store cells (w ++ [0])).map some := by
  cases w with
  | nil => rfl
  | cons c w =>
    have htake := takeLine_plain hw
    rw [List.length_cons] at htake
    rw [List.length_cons, fgetsInto, htake]
    exact List.cons_ne_nil c w

end Apes
