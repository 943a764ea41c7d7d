import Apes.Lib.Buffer
import Apes.Lib.CString

/-!
# `myfileIO.c`

The program writes `v` into a file, appends a line from its standard input, and reads the
file back. The line goes through an array of 20 bytes; no operation on the file fails.
-/

namespace Apes.FileIo

open Apes

/-! ## Files -/

/-- The modes in which the program opens its file. -/
inductive Mode
  | w
  | rPlus
  | wPlus
  | a
  | r
  deriving DecidableEq, Repr

/-- An open file: what it holds, and where the next access is. -/
structure Stream where
  content : List UInt8
  pos : ℕ
  deriving DecidableEq, Repr

/-- `fopen`, for a file that holds `content`. -/
def fopen (content : List UInt8) : Mode → Stream
  | .w | .wPlus => ⟨[], 0⟩
  | .rPlus | .r => ⟨content, 0⟩
  | .a => ⟨content, content.length⟩

namespace Stream

/-- `fputc` and `fprintf` write over what the file holds from here on. -/
def write (file1 : Stream) (bytes : List UInt8) : Stream where
  content := file1.content.take file1.pos ++ bytes ++
    file1.content.drop (file1.pos + bytes.length)
  pos := file1.pos + bytes.length

/-- What is still to be read. -/
def rest (file1 : Stream) : List UInt8 := file1.content.drop file1.pos

/-- `fgetc`; nothing for the end of the file. -/
def fgetc (file1 : Stream) : Option UInt8 × Stream :=
  (file1.content[file1.pos]?, { file1 with pos := file1.pos + 1 })

end Stream

/-! ## The program -/

/-- `scanf("%[^\n]s", …)`: the line without its newline, and a NUL behind it. A line without
    characters is no match, and nothing is stored. -/
def scanLine (allocatedArray : Cells UInt8) (stdin : List UInt8) :
    Except CellFault (Cells UInt8) :=
  match stdin.takeWhile (· ≠ 10) with
  | [] => .ok allocatedArray
  | line => store allocatedArray (line ++ [0])

/-- Up to the second `fclose`; the result is the array and what the file holds. -/
def writePhase (content stdin : List UInt8) : Except CellFault (Cells UInt8 × List UInt8) := do
  let file1 := fopen content .w
  let file1 := fopen file1.content .rPlus
  let file1 := fopen file1.content .wPlus
  let file1 := file1.write (textBytes "v")
  let file1 := fopen file1.content .a
  let allocatedArray ← scanLine (malloc UInt8 20) stdin
  let line ← loadString allocatedArray
  return (allocatedArray, (file1.write line).content)

/-- What is printed from the first `fgetc` on. -/
def readPhase (allocatedArray : Cells UInt8) (content : List UInt8) :
    Except CellFault (List UInt8) := do
  let (c, file1) := (fopen content .r).fgetc
  let first := match c with
    | none => textBytes "\n\rEnd of file indicator"
    | some c => textBytes "\n\r" ++ [c]
  let line ← loadString allocatedArray
  match ← fgetsInto allocatedArray (line.length + 1) file1.rest with
  | none => return first
  | some allocatedArray => return first ++ (← loadString allocatedArray)

/-- What the program leaves behind. -/
structure Outcome where
  file : List UInt8
  stdout : List UInt8
  deriving DecidableEq, Repr

def banner : List UInt8 := textBytes
  "\n\r This is file containing program for file IO operation using C programming"

def prompt : List UInt8 := textBytes
  "\n\rEnter the string that is to inserted into myfileIO.txt: "

/-- `main`, with what the file holds before. -/
def main (content stdin : List UInt8) : Except CellFault Outcome := do
  let (allocatedArray, file) ← writePhase content stdin
  let shown ← readPhase allocatedArray file
  return { file, stdout := banner ++ prompt ++ shown }

/-! ## Lines of any length -/

variable {L rest : List UInt8}

/-- The input goes on behind the line with a newline, or ends. -/
def AtLineEnd (rest : List UInt8) : Prop := rest = [] ∨ rest.head? = some 10

instance : DecidablePred AtLineEnd := fun _ => inferInstanceAs (Decidable (_ ∨ _))

theorem takeWhile_line (hL : Plain L) (hrest : AtLineEnd rest) :
    (L ++ rest).takeWhile (· ≠ 10) = L := by
  have hend : rest.takeWhile (· ≠ 10) = [] := by
    cases rest with
    | nil => rfl
    | cons c rest =>
      obtain rfl : c = 10 := by simpa [AtLineEnd] using hrest
      rfl
  rw [List.takeWhile_append_of_pos, hend, List.append_nil]
  intro c hc
  exact decide_eq_true (hL c hc).2

theorem not_mem_of_plain (hL : Plain L) : 0 ∉ L := fun h => (hL 0 h).1 rfl

/-- In the array the line is a string of at most 19 characters. -/
theorem scanLine_eq (hL : Plain L) (hrest : AtLineEnd rest) (h1 : 1 ≤ L.length)
    (h19 : L.length ≤ 19) : scanLine (malloc UInt8 20) (L ++ rest) =
      .ok ((L ++ [0]).map some ++ malloc UInt8 (19 - L.length)) := by
  have hlen : (L ++ [0]).length = L.length + 1 := List.length_append
  have hfits : (L ++ [0]).length ≤ (malloc UInt8 20).length := by
    rw [hlen, malloc_length]
    omega
  have hrest' : 20 - (L.length + 1) = 19 - L.length := by omega
  have hstore := store_of_le hfits
  rw [malloc_drop, hlen, hrest'] at hstore
  obtain ⟨c, L', rfl⟩ := List.exists_cons_of_length_pos h1
  rw [scanLine, takeWhile_line hL hrest]
  exact hstore

theorem writePhase_eq (content : List UInt8) (hL : Plain L) (hrest : AtLineEnd rest)
    (h1 : 1 ≤ L.length) (h19 : L.length ≤ 19) : writePhase content (L ++ rest) =
      .ok ((L ++ [0]).map some ++ malloc UInt8 (19 - L.length), textBytes "v" ++ L) := by
  have hload := loadString_string (not_mem_of_plain hL) (malloc UInt8 (19 - L.length))
  have happend : ((fopen (textBytes "v") .a).write L).content = textBytes "v" ++ L := by
    simp [Stream.write, fopen]
  simp only [writePhase, scanLine_eq hL hrest h1 h19, bind, Except.bind, hload]
  exact congrArg (fun file => Except.ok (_, file)) happend

/-- A file with `v` and the string of the array is printed as it is. -/
theorem readPhase_eq (hL : Plain L) (cells : Cells UInt8) :
    readPhase ((L ++ [0]).map some ++ cells) (textBytes "v" ++ L) =
      .ok (textBytes "\n\rv" ++ L) := by
  have hload := loadString_string (not_mem_of_plain hL) cells
  have hrest : (fopen (textBytes "v" ++ L) .r).fgetc.2.rest = L := rfl
  have hfgets : fgetsInto ((L ++ [0]).map some ++ cells) (L.length + 1) L =
      .ok (some ((L ++ [0]).map some ++ cells)) := by
    rw [fgetsInto_plain hL, store_again]
    rfl
  simp only [readPhase, hload, hrest, hfgets, bind, Except.bind]
  rfl

/-- The program makes no wrong access to the array, appends the line to the `v`, and prints
    both. -/
def RoundTrip (content L rest : List UInt8) : Prop :=
  main content (L ++ rest) =
    .ok ⟨textBytes "v" ++ L, banner ++ prompt ++ (textBytes "\n\rv" ++ L)⟩

theorem roundTrip_of_fits (content : List UInt8) (hL : Plain L) (hrest : AtLineEnd rest)
    (h1 : 1 ≤ L.length) (h19 : L.length ≤ 19) : RoundTrip content L rest := by
  have hread := readPhase_eq hL (malloc UInt8 (19 - L.length))
  simp only [RoundTrip, main, writePhase_eq content hL hrest h1 h19, bind, Except.bind, hread]
  rfl

/-- Without characters on the line the array is read as `malloc` has left it. -/
theorem main_of_empty (content : List UInt8) (hrest : AtLineEnd rest) :
    main content rest = .error .uninitialised := by
  have hscan : scanLine (malloc UInt8 20) rest = .ok (malloc UInt8 20) := by
    have htake : rest.takeWhile (· ≠ 10) = [] := takeWhile_line (L := []) nofun hrest
    rw [scanLine, htake]
  simp only [main, writePhase, hscan, loadString_malloc, bind, Except.bind]

/-- The NUL behind 20 characters or more does not fit into the array. -/
theorem main_of_long (content : List UInt8) (hL : Plain L) (hrest : AtLineEnd rest)
    (h20 : 20 ≤ L.length) : main content (L ++ rest) = .error .outside := by
  have hscan : scanLine (malloc UInt8 20) (L ++ rest) = .error .outside := by
    have hlong : (malloc UInt8 20).length < (L ++ [0]).length := by
      rw [malloc_length, List.length_append]
      exact Nat.lt_succ_of_le h20
    obtain ⟨c, L', rfl⟩ := List.exists_cons_of_length_pos (Nat.zero_lt_of_lt h20)
    rw [scanLine, takeWhile_line hL hrest]
    exact store_of_lt hlong
  simp only [main, writePhase, hscan, bind, Except.bind]

/-- A line comes back exactly where it has at least one character and, with its NUL, fits
    into the array. -/
theorem roundTrip_iff (content L rest : List UInt8) (hL : Plain L) (hrest : AtLineEnd rest) :
    RoundTrip content L rest ↔ 1 ≤ L.length ∧ L.length ≤ 19 := by
  constructor
  · intro h
    have hok : ∀ fault, main content (L ++ rest) ≠ .error fault := by
      intro fault hfault
      exact nomatch hfault.symm.trans h
    constructor
    · by_contra hlen
      obtain rfl : L = [] := List.length_eq_zero_iff.mp (by omega)
      exact hok _ (main_of_empty content hrest)
    · by_contra hlen
      exact hok _ (main_of_long content hL hrest (by omega))
  · rintro ⟨h1, h19⟩
    exact roundTrip_of_fits content hL hrest h1 h19

/-- The longest line that comes back. -/
theorem roundTrip_iff_longest :
    RoundTrip [] (List.replicate 19 97) [10] ↔
      1 ≤ (List.replicate 19 (97 : UInt8)).length ∧
        (List.replicate 19 (97 : UInt8)).length ≤ 19 :=
  roundTrip_iff [] (List.replicate 19 97) [10] (by decide) (by decide)

/-- An empty line, and the first line that is too long. -/
theorem roundTrip_fails : ¬ RoundTrip [] [] [10] ∧ ¬ RoundTrip [] (List.replicate 20 97) [10] := by
  constructor
  · intro h
    exact nomatch (main_of_empty [] (by decide)).symm.trans h
  · intro h
    exact nomatch (main_of_long [] (by decide) (by decide) (by decide)).symm.trans h

end Apes.FileIo
