/-
# Jvm.ClassFile.Constant — reading the constants of a class file

A constant is written as its tag number followed by its data. A `long` or `double`
takes two slots, so it is refused where only one is left, before its data is read. The
references between constants are checked when all have been read.
-/
import Jvm.ClassFile.Cursor
import Jvm.Pool.Verify

namespace Jvm.ClassFile

set_option autoImplicit false

open Pool (Entry Pair Tag)

namespace Reader

/-- Two numbers of the given widths, the first in front. -/
def pair (first second : Reader Nat) : Reader Pair := return .of (← first) (← second)

/-- The data of a constant whose tag number has been read, if it is a known one. -/
def constant? (code : Nat) : Option (Reader Entry) :=
  match (Tag.ofCode? code).getD .invalid with
  | .invalid => none
  | .utf8 => some do
      let length ← u2
      let bytes ← take length
      return .ofText (Text.ofBytes bytes)
  | .integer => some do return .integer (Int32.ofInt (signed 32 (← u4)))
  | .float => some do return .float (← u4).toUInt32
  | .long => some do return .long (Int64.ofInt (signed 64 (← u8)))
  | .double => some do return .double (← u8).toUInt64
  | .classRef => some do return .classRef (← u2)
  | .string => some do return .string (← u2)
  | .field => some do return .member .field (← pair u2 u2)
  | .method => some do return .member .method (← pair u2 u2)
  | .interfaceMethod => some do return .member .interfaceMethod (← pair u2 u2)
  | .nameAndType => some do return .nameAndType (← pair u2 u2)
  | .methodHandle => some do return .methodHandle (← pair u1 u2)
  | .methodType => some do return .methodType (← u2)
  | .dynamic => some do return .dynamic (← pair u2 u2)
  | .invokeDynamic => some do return .invokeDynamic (← pair u2 u2)

/-- The kind of constant that takes two slots, of a tag number. -/
def wideTag? (code : Nat) : Option Tag := (Tag.ofCode? code).filter Tag.isWide

/-- The slots of a pool of the given length, from the one that leaves `free` slots on. -/
def slots (length : Nat) : Nat → Reader (List (Option Entry))
  | 0 => return []
  | free + 1 => do
      let index := length - (free + 1)
      let code ← u1
      match constant? code with
      | none => fail (.unknownTag code index (← source))
      | some constant =>
          match wideTag? code with
          | none => do
              let entry ← constant
              return some entry :: (← slots length free)
          | some tag =>
              match free with
              | 0 => fail (.needsTwoSlots index tag (← source))
              | free + 1 => do
                  let entry ← constant
                  return some entry :: none :: (← slots length free)

def pool : Reader Pool := do
  let length ← u2
  if length = 0 then fail (.badPoolSize length (← source))
  let slots ← slots length (length - 1)
  let pool : Pool := ⟨(none :: slots).toArray⟩
  match pool.verify with
  | .ok _ => return pool
  | .error fault => throw fault

end Reader

end Jvm.ClassFile
