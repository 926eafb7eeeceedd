/-
# Jvm.ClassFile.Cursor — reading bytes from front to back

A `Cursor` is the part of a file that is still to be read, with the number of bytes
before it. Every read asks for a number of bytes and either takes exactly that many or
fails and leaves the cursor where it was. The number asked for by a skip is signed:
lengths in a file have 32 bits, and one above the signed range is never available.
-/
import Jvm.BigEndian
import Jvm.Code
import Jvm.Fault

namespace Jvm.ClassFile

set_option autoImplicit false

structure Cursor where
  /-- Where the bytes come from, for messages. -/
  source : Option String
  offset : Nat
  rest : List UInt8
  deriving DecidableEq, Repr

namespace Cursor

def start (source : Option String) (bytes : List UInt8) : Cursor := ⟨source, 0, bytes⟩

def remaining (cursor : Cursor) : Nat := cursor.rest.length

def atEnd (cursor : Cursor) : Bool := cursor.rest.isEmpty

def has (cursor : Cursor) (count : Int) : Bool := 0 ≤ count && count ≤ cursor.remaining

def sourceName (cursor : Cursor) : String := cursor.source.getD "<unknown>"

def truncated (cursor : Cursor) (count : Int) : Cause :=
  .truncated cursor.sourceName count cursor.offset cursor.remaining

def advance (cursor : Cursor) (count : Nat) : Cursor :=
  { cursor with offset := cursor.offset + count, rest := cursor.rest.drop count }

end Cursor

/-- An action that reads from a cursor, or fails and leaves the cursor at the failing read. -/
abbrev Reader := EStateM Fault Cursor

namespace Reader

def fail {α : Type} (cause : Cause) : Reader α := throw (.of cause)

def source : Reader String := return (← get).sourceName

/-- Take the next bytes. -/
def take (count : Int) : Reader (List UInt8) := do
  let cursor ← get
  if cursor.has count then
    set (cursor.advance count.toNat)
    return cursor.rest.take count.toNat
  else fail (cursor.truncated count)

def skip (count : Int) : Reader Unit := do
  let _ ← take count

/-- The next bytes as a number. -/
def number (width : Nat) : Reader Nat := return BigEndian.decode (← take width)

def u1 : Reader Nat := number 1

def u2 : Reader Nat := number 2

def u4 : Reader Nat := number 4

def u8 : Reader Nat := number 8

/-- A length of 32 bits as the count of a skip. -/
def signedLength (length : Nat) : Int := signed 32 length

/-- The answers of a reader run a number of times. -/
def many {α : Type} (reader : Reader α) : Nat → Reader (List α)
  | 0 => return []
  | count + 1 => do
      let first ← reader
      let others ← many reader count
      return first :: others

/-- Run a step a number of times, each on the answer of the one before. -/
def iterate {σ : Type} (step : σ → Reader σ) : Nat → σ → Reader σ
  | 0, state => return state
  | count + 1, state => do
      let next ← step state
      iterate step count next

end Reader

end Jvm.ClassFile
