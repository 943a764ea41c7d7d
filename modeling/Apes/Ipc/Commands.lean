import Apes.Ipc.Handler
import Apes.Lib.CString
import Mathlib.Algebra.Order.Ring.Nat

/-!
# The commands of the two handlers

Both `queues.c` and `sockets.c` fill two tables of ten records with a text, an LED command
and the length of the text. The tables are not initialised otherwise. What a handler writes
to its log of a record that it has received are its three fields.

## Main definitions

- `Entry`, `entry`: the part of an entry of a log that comes from a record
- `fillRecord`: what the stores of a handler leave in a record
- `Queues.thread1Table`, `Sockets.thread1Table`, `thread2Table`
-/

namespace Apes

/-- `led_cmd_t` -/
inductive Led
  | on
  | off
  | toggle
  | fault
  | warning
  | critical
  | safe
  | blink
  | damaged
  | outOfRange
  deriving DecidableEq, Repr

/-- The number of an LED command. -/
def Led.code : Led → UInt32
  | .on => 0
  | .off => 1
  | .toggle => 2
  | .fault => 3
  | .warning => 4
  | .critical => 5
  | .safe => 6
  | .blink => 7
  | .damaged => 8
  | .outOfRange => 9

/-! ## The entries of a log -/

/-- What a handler logs of a record: `"%s"` of `messages`, `"%d"` of `string_len` and of
    `command`. -/
structure Entry where
  text : List UInt8
  stringLen : Int32
  command : Int32
  deriving DecidableEq, Repr

/-- The `int` that starts the bytes. -/
def word : List UInt8 → UInt32
  | b0 :: b1 :: b2 :: b3 :: _ =>
    UInt32.ofNat (b0.toNat + b1.toNat * 2 ^ 8 + b2.toNat * 2 ^ 16 + b3.toNat * 2 ^ 24)
  | _ => 0

/-- The entry that is made of the bytes of a record. -/
def entry (b : List UInt8) : Entry where
  text := strBytes b
  stringLen := (word (b.drop 44)).toInt32
  command := (word (b.drop 40)).toInt32

theorem word_wordBytes (x : UInt32) (r : List UInt8) : word (wordBytes x ++ r) = x := by
  have hlt : x.toNat < 2 ^ 32 := x.toNat_lt
  have h8 : (x >>> 8).toNat = x.toNat / 2 ^ 8 := Nat.shiftRight_eq_div_pow _ _
  have h16 : (x >>> 16).toNat = x.toNat / 2 ^ 16 := Nat.shiftRight_eq_div_pow _ _
  have h24 : (x >>> 24).toNat = x.toNat / 2 ^ 24 := Nat.shiftRight_eq_div_pow _ _
  apply UInt32.toNat_inj.mp
  simp only [wordBytes, word, List.cons_append, List.nil_append, UInt32.toNat_ofNat',
    UInt32.toNat_toUInt8, h8, h16, h24]
  omega

/-- The entry that is made of a record. -/
theorem entry_bytes (r : Record) (h : 0 ∈ r.messages.toList) :
    entry r.bytes = ⟨strBytes r.messages.toList, r.stringLen.toInt32, r.command.toInt32⟩ := by
  have htext : strBytes r.bytes = strBytes r.messages.toList := by
    rw [Record.bytes, List.append_assoc, strBytes_append h]
  have hcommand : r.bytes.drop 40 = wordBytes r.command ++ wordBytes r.stringLen := by
    rw [Record.bytes, List.append_assoc, List.drop_left' Vector.length_toList]
  have hlen : r.bytes.drop 44 = wordBytes r.stringLen ++ [] := by
    rw [Record.bytes, List.drop_left' (by simp [wordBytes]), List.append_nil]
  rw [entry, htext, hcommand, hlen, word_wordBytes, word_wordBytes]

/-! ## The tables -/

/-- `strcpy(t[k].messages, text)`; the texts are shorter than the array. -/
def copyMessage (messages : Vector UInt8 40) (text : String) : Vector UInt8 40 :=
  Vector.ofFn fun i => (strcpy messages.toList (textBytes text ++ [0])).getD i 0

/-- `strlen(t[k].messages)` -/
def messageLength (messages : Vector UInt8 40) : UInt32 :=
  UInt32.ofNat (strBytes messages.toList).length

/-- The stores `t[k].command = …` of a list, one after the other, where `command` is what
    the memory held. -/
def storeCommands (commands : List (ℕ × Led)) (k : ℕ) (command : UInt32) : UInt32 :=
  commands.foldl (fun c p => if p.1 = k then p.2.code else c) command

/-- What a handler stores in `t[k]`, in the order of the source: the text, the commands, the
    length. `r` is what the memory held. -/
def fillRecord (texts : List String) (commands : List (ℕ × Led)) (r : Record) (k : ℕ) : Record :=
  match texts[k]? with
  | none => r
  | some text =>
    let messages := copyMessage r.messages text
    ⟨messages, storeCommands commands k r.command, messageLength messages⟩

/-- The texts of `thread1_handler`, in both programs. -/
def thread1Texts : List String :=
  ["Thread1: Initialising communication", "Thread1: Opening gateway",
    "Thread1: Checking system status", "Thread1: Adding parity bits", "Thread1: Sending data",
    "Thread1: Extracting data", "Thread1: Extracting parity",
    "Thread1: Waiting for Acknowledgement", "Thread1: Closing the gateway",
    "Thread1: Closing the connection"]

/-- The texts of `thread2_handler`, in both programs. -/
def thread2Texts : List String :=
  ["Thread2: Communication initialised", "Thread2: Gateway opened", "Thread2: Status positive",
    "Thread2: Parity bits added successfull", "Thread2: Data sent", "Thread2: Data extracted",
    "Thread2: Parity extracted", "Thread2: Acknowledgement sent", "Thread2: Gateway closed",
    "Thread2: Connection closed"]

/-- The commands of both handlers of `queues.c`, and of `thread2_handler` of `sockets.c`. -/
def allCommands : List (ℕ × Led) :=
  [(0, .on), (1, .off), (2, .toggle), (3, .fault), (4, .warning), (5, .critical), (6, .safe),
    (7, .blink), (8, .damaged), (9, .outOfRange)]

/-- The commands of `thread1_handler` of `sockets.c`: the last two go to the records 6 and 7
    again. -/
def socketsCommands : List (ℕ × Led) :=
  [(0, .on), (1, .off), (2, .toggle), (3, .fault), (4, .warning), (5, .critical), (6, .safe),
    (7, .blink), (6, .damaged), (7, .outOfRange)]

/-- The tables of `queues.c`, in memory that held `memory1` and `memory2`. -/
def queuesTables (memory1 memory2 : ℕ → Record) : Tables where
  n := 10
  t1 k := fillRecord thread1Texts allCommands (memory1 k) k
  t2 k := fillRecord thread2Texts allCommands (memory2 k) k

/-- The tables of `sockets.c`. -/
def socketsTables (memory1 memory2 : ℕ → Record) : Tables where
  n := 10
  t1 k := fillRecord thread1Texts socketsCommands (memory1 k) k
  t2 k := fillRecord thread2Texts allCommands (memory2 k) k

/-- The text and its NUL fit the array. -/
def Fits (text : String) : Prop := 0 ∉ textBytes text ∧ (textBytes text).length < 40

instance : DecidablePred Fits := fun _ => inferInstanceAs (Decidable (_ ∧ _))

theorem copyMessage_toList {text : String} (h : Fits text) (messages : Vector UInt8 40) :
    (copyMessage messages text).toList = strcpy messages.toList (textBytes text ++ [0]) := by
  have hlen : (strcpy messages.toList (textBytes text ++ [0])).length = 40 := by
    rw [strcpy_length, Vector.length_toList]
    rw [strBytes_append_nul h.1, Vector.length_toList]
    exact h.2
  apply List.ext_getElem
  · rw [Vector.length_toList, hlen]
  · intro i hi hi'
    simp [copyMessage, hi']

/-- What is logged of a record that has been filled. -/
theorem entry_fillRecord {texts : List String} {commands : List (ℕ × Led)} {k : ℕ} {text : String}
    (htext : texts[k]? = some text) (h : Fits text) (r : Record) :
    entry (fillRecord texts commands r k).bytes =
      ⟨textBytes text, (UInt32.ofNat (textBytes text).length).toInt32,
        (storeCommands commands k r.command).toInt32⟩ := by
  have hlist := copyMessage_toList h r.messages
  have hstr : strBytes (copyMessage r.messages text).toList = textBytes text := by
    rw [hlist, strBytes_strcpy, strBytes_append_nul h.1]
  have hfill : fillRecord texts commands r k =
      ⟨copyMessage r.messages text, storeCommands commands k r.command,
        messageLength (copyMessage r.messages text)⟩ := by
    simp only [fillRecord, htext]
  have hnul : 0 ∈ (fillRecord texts commands r k).messages.toList := by
    rw [hfill]
    simp only [hlist]
    exact zero_mem_strcpy _ _
  rw [entry_bytes _ hnul, hfill]
  simp only [messageLength, hstr]

theorem thread1Texts_fit : ∀ text ∈ thread1Texts, Fits text := by decide +kernel

theorem thread2Texts_fit : ∀ text ∈ thread2Texts, Fits text := by decide +kernel

end Apes
