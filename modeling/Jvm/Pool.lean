/-
# Jvm.Pool — constant pools

A pool has numbered slots. Slot zero is never used, a `long` or `double` takes its own
slot and leaves the next one without a constant, and every other slot holds one entry.
Entries refer to each other by slot number, and nothing about those numbers is assumed
here: checking them is the business of `Jvm.Pool.Verify`, following them that of
`Jvm.Pool.Resolve`. The references of an entry, each with what it must point to, are
data (`Entry.references`), so both read them from one place.
-/
import Jvm.Halt
import Jvm.Pool.Pair
import Jvm.Value

namespace Jvm.Pool

set_option autoImplicit false

inductive MemberKind where
  | field | method | interfaceMethod
  deriving DecidableEq, Repr

def MemberKind.tag : MemberKind → Tag
  | .field => .field
  | .method => .method
  | .interfaceMethod => .interfaceMethod

inductive Entry where
  | utf8 (text : String)
  | integer (v : Int32)
  | float (bits : UInt32)
  | long (v : Int64)
  | double (bits : UInt64)
  | classRef (name : Int)
  | string (text : Int)
  /-- The class entry and the name with its descriptor. -/
  | member (kind : MemberKind) (parts : Pair)
  /-- The name and the descriptor. -/
  | nameAndType (parts : Pair)
  /-- The kind of handle, which is not a slot number, and the member. -/
  | methodHandle (parts : Pair)
  | methodType (descriptor : Int)
  /-- A bootstrap method, which is not in the pool, and a name with its descriptor. -/
  | dynamic (parts : Pair)
  | invokeDynamic (parts : Pair)
  deriving DecidableEq, Repr

/-- What the target of a reference must be. -/
inductive Target where
  | entry (tag : Tag)
  | anyMember
  deriving DecidableEq, Repr

namespace Target

def accepts : Target → Tag → Bool
  | .entry tag, found => tag == found
  | .anyMember, found => found.isMember

/-- The tag that a message names. -/
def tag : Target → Tag
  | .entry tag => tag
  | .anyMember => .method

end Target

namespace Entry

/-- A text constant holds a text up to its first zero byte. -/
def ofText (text : String) : Entry := .utf8 (Text.upToNul text)

def tag : Entry → Tag
  | .utf8 _ => .utf8
  | .integer _ => .integer
  | .float _ => .float
  | .long _ => .long
  | .double _ => .double
  | .classRef _ => .classRef
  | .string _ => .string
  | .member kind _ => kind.tag
  | .nameAndType _ => .nameAndType
  | .methodHandle _ => .methodHandle
  | .methodType _ => .methodType
  | .dynamic _ => .dynamic
  | .invokeDynamic _ => .invokeDynamic

def isWide (entry : Entry) : Bool := entry.tag.isWide

/-- The slots an entry refers to, in the order in which they are checked and followed. -/
def references : Entry → List (Int × Target)
  | .classRef name => [(name, .entry .utf8)]
  | .string text => [(text, .entry .utf8)]
  | .member _ parts => [(parts.first, .entry .classRef), (parts.second, .entry .nameAndType)]
  | .nameAndType parts => [(parts.first, .entry .utf8), (parts.second, .entry .utf8)]
  | .methodHandle parts => [(parts.second, .anyMember)]
  | .methodType descriptor => [(descriptor, .entry .utf8)]
  | .dynamic parts => [(parts.second, .entry .nameAndType)]
  | .invokeDynamic parts => [(parts.second, .entry .nameAndType)]
  | _ => []

def text? : Entry → Option String
  | .utf8 text => some text
  | _ => none

def className? : Entry → Option Int
  | .classRef name => some name
  | _ => none

def nameAndType? : Entry → Option Pair
  | .nameAndType parts => some parts
  | _ => none

def member? (kind : MemberKind) : Entry → Option Pair
  | .member found parts => if found = kind then some parts else none
  | _ => none

end Entry

end Pool

structure Pool where
  slots : Array (Option Pool.Entry)
  deriving DecidableEq, Repr

namespace Pool

/-- A pool with the given number of slots, none of them written. Slot zero is always there. -/
def allocate (length : Int) : Except Violation Pool :=
  if length < 1 then .error .emptyPool else .ok ⟨Array.replicate length.toNat none⟩

def length (pool : Pool) : Nat := pool.slots.size

def isWithin (pool : Pool) (index : Int) : Bool := 1 ≤ index && index < pool.length

def entryAt (pool : Pool) (index : Nat) : Option Entry := (pool.slots[index]?).join

def tagAt (pool : Pool) (index : Nat) : Tag :=
  match pool.entryAt index with
  | some entry => entry.tag
  | none => .invalid

/-- The tag of a slot that the pool has. -/
def checkedTagAt (pool : Pool) (index : Int) : Except Violation Tag :=
  if index < 0 ∨ (pool.length : Int) ≤ index then .error .noSlot
  else .ok (pool.tagAt index.toNat)

/-- The text of a text constant, in slot zero too. -/
def textAt (pool : Pool) (index : Nat) : Except Violation String :=
  match (pool.entryAt index).bind Entry.text? with
  | some text => .ok text
  | none => .error .notUtf8

/-- The text of a text constant in one of the usable slots. -/
def text? (pool : Pool) (index : Int) : Option String :=
  if pool.isWithin index then (pool.entryAt index.toNat).bind Entry.text? else none

def set (pool : Pool) (index : Nat) (slot : Option Entry) : Pool :=
  ⟨pool.slots.setIfInBounds index slot⟩

/-- Write an entry; a two-slot entry also clears the slot after its own. -/
def put (pool : Pool) (index : Nat) (entry : Entry) : Except Violation Pool :=
  if entry.isWide then
    if index + 1 < pool.length then .ok ((pool.set index (some entry)).set (index + 1) none)
    else .error (if entry.tag = .long then .longAtEnd else .doubleAtEnd)
  else .ok (pool.set index (some entry))

end Pool

end Jvm
