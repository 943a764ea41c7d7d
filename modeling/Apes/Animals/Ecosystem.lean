import Apes.Animals.Memory
import Apes.Animals.NameSort

/-!
# `animal_lkm.c`

A kernel module that sorts a table of names, makes a list of the distinct names with the
number of their occurrences (set 1), and copies the nodes that pass a filter to a second
list (set 2). Unloading the module frees both lists.
-/

namespace Apes.Animals

open Apes State

variable {n : ℕ}

/-- The table of names and the array `temp` that it is sorted with, and the parameters of
    the module. -/
structure Input (n : ℕ) where
  table : Sorting 15 n
  findCount : ℤ
  animalFindName : Option CString

/-- The table of the module. -/
def namesT : Vector (Row 15) 50 :=
  #v["Tiger", "Dog", "Cat", "Shark", "Dolphin",
    "Parrot", "Seal", "Piranha", "Monkey", "Squirrel",
    "Elephant", "Lion", "Donkey", "Sheep", "Chicken",
    "Rat", "Goat", "Frog", "Deer", "Yak",
    "Whale", "Snake", "Crocodile", "Moose", "Goose",
    "Camel", "Penguin", "Pig", "Lizard", "Ant",
    "Bee", "Bear", "Horse", "Cow", "Bull",
    "Dog", "Monkey", "Tiger", "Bull", "Goat",
    "Whale", "Rat", "Lion", "Deer", "Yak",
    "Dog", "Tiger", "Sheep", "Chicken", "Frog"].map fun name => Row.ofString name (by decide)

/-- `names_t[i]` -/
def row (names : Vector (Row 15) n) (i : ℕ) : Except Fault (Row 15) :=
  match names[i]? with
  | some name => .ok name
  | none => .error (.row i)

/-- A node for a name is allocated, filled in and put at the end of a list. -/
def newNode (k : Kernel) (name : Row 15) (count : ℕ) (head : Head) (s : State) :
    Except Fault State := do
  let (a, s) := s.kmalloc k
  let s ← s.setName a name
  let s ← s.setCount a count
  let s ← s.initListHead (.node a)
  s.listAddTail (.node a) (.head head)

/-- `printk` of a name and a count. -/
def printNode (s : State) (a : ℕ) : Except Fault State := do
  let _ ← s.animalName a
  let _ ← s.count a
  .ok s

/-! ## Set 1 -/

/-- `for(;j<n;j++) if(strcmp(names_t[i],names_t[j])==0) count_animal++;` -/
def countAnimal (names : Vector (Row 15) n) (i j count : ℕ) : Except Fault ℕ :=
  if h : j < n then do
    let name ← row names i
    let other ← row names j
    countAnimal names i (j + 1) (if strcmp name.bytes other.bytes = 0 then count + 1 else count)
  else .ok count
termination_by n - j

/-- `while(i<n) { … }`; the loop is endless where it makes more than `n` rounds. -/
def groupNames (k : Kernel) (names : Vector (Row 15) n) :
    ℕ → ℕ → State → Except Fault State
  | 0, _, _ => .error .endless
  | fuel + 1, i, s =>
    if i < n then do
      let count ← countAnimal names i i 0
      let s := s.countNode .root
      let name ← row names i
      let s ← newNode k name count .root s
      groupNames k names fuel (i + count) s
    else .ok s

/-- The five calls of `INIT_LIST_HEAD`. -/
def initHeads (s : State) : Except Fault State := do
  let s ← s.initListHead (.head .root)
  let s ← s.initListHead (.head .countRoot)
  let s ← s.initListHead (.head .typeRoot)
  let s ← s.initListHead (.head .bothRoot)
  s.initListHead (.head .noRoot)

/-- `animal_ecosystem_start` from the sorted table to the end of set 1. -/
def set1 (k : Kernel) (names : Vector (Row 15) n) (s : State) : Except Fault State := do
  let s ← initHeads s
  let s ← groupNames k names (n + 1) 0 s
  listForEachEntry .root printNode s

/-! ## Set 2 -/

/-- `ptr->count >= find_count` -/
def countReached (findCount : ℤ) (s : State) (a : ℕ) : Except Fault Bool := do
  let count ← s.count a
  .ok (findCount ≤ count)

/-- `strcmp(ptr->animal_name,animal_find_name)==0` -/
def nameMatches (animalFindName : Option CString) (s : State) (a : ℕ) : Except Fault Bool := do
  let name ← s.animalName a
  match animalFindName with
  | none => .error .null
  | some wanted => .ok (strcmp name.bytes wanted.bytes = 0)

/-- The nodes of set 1 that pass `cond` are copied to another list. -/
def copyNodes (k : Kernel) (cond : State → ℕ → Except Fault Bool) (head : Head) (s : State) :
    Except Fault State :=
  listForEachEntry .root (fun s a => do
    if ← cond s a then
      let name ← s.animalName a
      let count ← s.count a
      newNode k name count head s
    else .ok s) s

/-- The nodes of a list are counted and printed. -/
def printNodes (head : Head) (s : State) : Except Fault State :=
  listForEachEntry head (fun s a => printNode (s.countNode head) a) s

/-- Both filters. -/
def bothFilters (k : Kernel) (p : Input n) (s : State) : Except Fault State := do
  let s ← copyNodes k (fun s a => do
    if ← countReached p.findCount s a then nameMatches p.animalFindName s a else .ok false)
    .bothRoot s
  printNodes .bothRoot s

/-- The count filter. -/
def countFilter (k : Kernel) (p : Input n) (s : State) : Except Fault State := do
  let s ← copyNodes k (countReached p.findCount) .countRoot s
  printNodes .countRoot s

/-- The type filter. -/
def typeFilter (k : Kernel) (p : Input n) (s : State) : Except Fault State := do
  let s ← copyNodes k (nameMatches p.animalFindName) .typeRoot s
  printNodes .typeRoot s

/-- No filter. -/
def noFilter (k : Kernel) (s : State) : Except Fault State := do
  let s ← copyNodes k (fun _ _ => .ok true) .noRoot s
  printNodes .noRoot s

/-- `animal_ecosystem_start`, set 2 -/
def set2 (k : Kernel) (p : Input n) (s : State) : Except Fault State :=
  if p.findCount ≠ 0 ∧ p.animalFindName.isSome then bothFilters k p s
  else if p.findCount ≠ 0 ∨ p.animalFindName.isSome then do
    let s ← if p.findCount ≠ 0 then countFilter k p s else .ok s
    if p.animalFindName.isSome then typeFilter k p s else .ok s
  else noFilter k s

/-- `animal_ecosystem_start`, the sums of the counters -/
def totals (p : Input n) (s : State) : State :=
  let s := { s with totalNodes := s.totalNodes + s.noNodes .root }
  if p.findCount ≠ 0 ∧ p.animalFindName.isSome then
    { s with totalNodes := s.totalNodes + s.noNodes .bothRoot }
  else if p.findCount ≠ 0 ∨ p.animalFindName.isSome then
    let s :=
      if p.findCount ≠ 0 then { s with totalNodes := s.totalNodes + s.noNodes .countRoot } else s
    if p.animalFindName.isSome then { s with totalNodes := s.totalNodes + s.noNodes .typeRoot }
    else s
  else { s with totalNodes := s.totalNodes + s.noNodes .noRoot }

/-! ## Loading and unloading -/

/-- `animal_ecosystem_start`. The node that `new_node` is initialised with is not used: the
    variable is declared again where nodes are made. -/
def animalEcosystemStart (k : Kernel) (p : Input n) (s : State) : Except Fault State := do
  let (_, s) := s.kmalloc k
  let s ← set1 k p.table.sort.names s
  let s ← set2 k p s
  .ok (totals p s)

/-- All nodes of a list are taken out and freed. -/
def freeNodes (head : Head) (s : State) : Except Fault State :=
  listForEachEntrySafe head (fun s a => do
    let s ← printNode s a
    let s ← s.listDel (.node a)
    s.kfree a) s

/-- `animal_ecosystem_end` -/
def animalEcosystemEnd (p : Input n) (s : State) : Except Fault State := do
  let s ← freeNodes .root s
  if p.findCount ≠ 0 ∧ p.animalFindName.isSome then freeNodes .bothRoot s
  else if p.findCount ≠ 0 ∨ p.animalFindName.isSome then
    let s ← if p.findCount ≠ 0 then freeNodes .countRoot s else .ok s
    if p.animalFindName.isSome then freeNodes .typeRoot s else .ok s
  else freeNodes .noRoot s

/-- The globals of the module when it is loaded. -/
def State.loaded (s : State) : State := { s with totalNodes := 0, noNodes := fun _ => 0 }

def insmod (k : Kernel) (p : Input n) (s : State) : Except Fault State :=
  animalEcosystemStart k p s.loaded

def rmmod (p : Input n) (s : State) : Except Fault State := animalEcosystemEnd p s

end Apes.Animals
