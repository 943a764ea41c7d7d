import Apes.Lib.CString
import Apes.Lib.Ring
import Apes.MySort.Syscall

/-!
# The kernel memory of `animal_lkm.c`

The nodes of the lists are blocks on the kernel heap, the heads of the five lists are
globals of the module. An access to a node that is not allocated, or to a link that was
poisoned by `list_del`, is a fault, and so is an endless loop over a list.
-/

namespace Apes.Animals

open Apes

/-- The list heads of the module. -/
inductive Head
  | root
  | countRoot
  | typeRoot
  | bothRoot
  | noRoot
  deriving DecidableEq, Repr

/-- What a `struct list_head *` points to: a list head, the field `list` of the node at an
    address, or one of the values that `list_del` leaves in a link. -/
inductive Loc
  | head (h : Head)
  | node (a : ℕ)
  | poison1
  | poison2
  deriving DecidableEq, Repr

/-- An `animal_t` without its links. -/
structure Animal where
  -- `char animal_name[15]`
  animalName : List UInt8
  animalName_length : animalName.length = 15
  count : ℕ

/-- A name is copied to the node. -/
def Animal.copyName (animal : Animal) (name : Row 15) : Animal :=
  let row := Row.copy animal.animalName animal.animalName_length name
  { animal with animalName := row.bytes, animalName_length := row.length_eq }

inductive Fault
  /-- `names_t` is read at an index that it does not have. -/
  | row (i : ℕ)
  /-- What is not allocated is accessed. -/
  | dead (l : Loc)
  /-- An `animal_name` without a NUL is read as a string. -/
  | unterminated (a : ℕ)
  /-- A null pointer is read from. -/
  | null
  /-- A loop does not end. -/
  | endless
  deriving DecidableEq, Repr

/-- The kernel grants every `kmalloc`; `junk` is what the blocks hold, in the order in which
    they are allocated. -/
structure Kernel extends MySort.Allocator where
  junk : ℕ → Animal

structure State where
  links : Links Loc
  animals : ℕ → Animal
  live : Finset ℕ
  -- all the blocks ever allocated and freed
  kmallocs : List ℕ
  kfrees : List ℕ
  totalNodes : ℕ
  -- `no_nodes`, `no_count_nodes`, `no_type_nodes`, `no_both_nodes`, `no_no_nodes`, by list
  noNodes : Head → ℕ

namespace State

def Alive (s : State) : Loc → Prop
  | .head _ => True
  | .node a => a ∈ s.live
  | .poison1 | .poison2 => False

instance (s : State) (l : Loc) : Decidable (s.Alive l) := by
  cases l <;> (dsimp only [Alive]; infer_instance)

/-- An access to what `l` points to. -/
def check (s : State) (l : Loc) : Except Fault Unit :=
  if s.Alive l then .ok () else .error (.dead l)

/-- `l->next` -/
def next (s : State) (l : Loc) : Except Fault Loc := do
  s.check l
  .ok (s.links.next l)

/-- `INIT_LIST_HEAD(l)` -/
def initListHead (s : State) (l : Loc) : Except Fault State := do
  s.check l
  .ok { s with links := s.links.init l }

/-- `list_add_tail(l, head)` -/
def listAddTail (s : State) (l head : Loc) : Except Fault State := do
  s.check head
  s.check l
  s.check (s.links.prev head)
  .ok { s with links := s.links.addTail l head }

/-- `list_del(l)` -/
def listDel (s : State) (l : Loc) : Except Fault State := do
  s.check l
  s.check (s.links.prev l)
  s.check (s.links.next l)
  .ok { s with links := s.links.del l .poison1 .poison2 }

/-- `kmalloc(sizeof(animal_t),GFP_KERNEL)` -/
def kmalloc (k : Kernel) (s : State) : ℕ × State :=
  let a := k.place s.live
  (a, { s with
    live := insert a s.live
    animals := Function.update s.animals a (k.junk s.kmallocs.length)
    kmallocs := s.kmallocs ++ [a] })

/-- `kfree(ptr)` -/
def kfree (s : State) (a : ℕ) : Except Fault State := do
  s.check (.node a)
  .ok { s with live := s.live.erase a, kfrees := s.kfrees ++ [a] }

/-- The counter of a list is raised by one. -/
def countNode (s : State) (head : Head) : State :=
  { s with noNodes := Function.update s.noNodes head (s.noNodes head + 1) }

/-- `ptr->animal_name` as a string -/
def animalName (s : State) (a : ℕ) : Except Fault (Row 15) := do
  s.check (.node a)
  if h : 0 ∈ (s.animals a).animalName then
    .ok ⟨(s.animals a).animalName, (s.animals a).animalName_length, h⟩
  else .error (.unterminated a)

/-- `ptr->count` -/
def count (s : State) (a : ℕ) : Except Fault ℕ := do
  s.check (.node a)
  .ok (s.animals a).count

/-- `strcpy(ptr->animal_name, name)` -/
def setName (s : State) (a : ℕ) (name : Row 15) : Except Fault State := do
  s.check (.node a)
  .ok { s with animals := Function.update s.animals a ((s.animals a).copyName name) }

/-- `ptr->count = count` -/
def setCount (s : State) (a : ℕ) (count : ℕ) : Except Fault State := do
  s.check (.node a)
  .ok { s with animals := Function.update s.animals a { s.animals a with count := count } }

/-! ## The loops over a list -/

/-- `list_for_each_entry` from `pos` on. The loop is endless where it makes more steps than
    there are nodes. -/
def forEachFrom (head : Head) (body : State → ℕ → Except Fault State) :
    ℕ → State → Loc → Except Fault State
  | 0, _, _ => .error .endless
  | fuel + 1, s, pos =>
    if pos = .head head then .ok s
    else
      match pos with
      | .node a => do
        let s ← body s a
        let pos ← s.next (.node a)
        forEachFrom head body fuel s pos
      | l => .error (.dead l)

/-- `list_for_each_entry(ptr, head, list) { body }` -/
def listForEachEntry (head : Head) (body : State → ℕ → Except Fault State) (s : State) :
    Except Fault State := do
  let pos ← s.next (.head head)
  forEachFrom head body (s.live.card + 1) s pos

/-- `list_for_each_entry_safe` from `pos` on, with the next position `tmp`. -/
def forEachSafeFrom (head : Head) (body : State → ℕ → Except Fault State) :
    ℕ → State → Loc → Loc → Except Fault State
  | 0, _, _, _ => .error .endless
  | fuel + 1, s, pos, tmp =>
    if pos = .head head then .ok s
    else
      match pos with
      | .node a => do
        let s ← body s a
        let next ← s.next tmp
        forEachSafeFrom head body fuel s tmp next
      | l => .error (.dead l)

/-- `list_for_each_entry_safe(ptr, tmp, head, list) { body }` -/
def listForEachEntrySafe (head : Head) (body : State → ℕ → Except Fault State) (s : State) :
    Except Fault State := do
  let pos ← s.next (.head head)
  let tmp ← s.next pos
  forEachSafeFrom head body (s.live.card + 1) s pos tmp

end State

end Apes.Animals
