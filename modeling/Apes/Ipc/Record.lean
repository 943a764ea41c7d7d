import Mathlib.Data.List.Basic

/-!
# The records of the two threads

`thread1_cmd_t` and `thread2_cmd_t` have the same fields: 40 bytes of text, an
LED command and the length of the text. The target is little-endian with 4-byte
`int` and `enum`, so that a record has 48 bytes and no padding.
-/

namespace Apes

/-- `thread1_cmd_t` and `thread2_cmd_t` -/
structure Record where
  messages : Vector UInt8 40
  -- the number of the LED command
  command : UInt32
  stringLen : UInt32
  deriving DecidableEq, Inhabited

/-- The bytes of an `int` in memory. -/
def wordBytes (x : UInt32) : List UInt8 :=
  [x.toUInt8, (x >>> 8).toUInt8, (x >>> 16).toUInt8, (x >>> 24).toUInt8]

/-- `sizeof(thread1_cmd_t)` -/
def recordSize : ℕ := 48

/-- The bytes of a record in memory. -/
def Record.bytes (r : Record) : List UInt8 :=
  r.messages.toList ++ wordBytes r.command ++ wordBytes r.stringLen

@[simp] theorem Record.bytes_length (r : Record) : r.bytes.length = recordSize := by
  simp [Record.bytes, wordBytes, recordSize]

end Apes
