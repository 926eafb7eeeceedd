/-
# Jvm.Pool.Memo — resolving with a memory

A `Resolved` entry has the texts that its kind calls for, or a number. `Memo` notes how far
the resolution of each slot has come. A slot that was resolved once is answered from memory.
A slot whose resolution is under way is met again only through a circular reference. A
failure makes the slot unresolved again, although entries resolved on the way to it stay.
Writing to the pool does not touch the memory, so a slot overwritten after it was
resolved still answers with what it was.
-/
import Jvm.Pool.Resolve

namespace Jvm.Pool

set_option autoImplicit false

structure Resolved where
  tag : Tag
  owner : Option String
  name : Option String
  descriptor : Option String
  text : Option String
  value : Value
  deriving DecidableEq, Repr

namespace Resolved

def blank (tag : Tag) : Resolved := ⟨tag, none, none, none, none, .unset⟩

def ofValue (tag : Tag) (v : Value) : Resolved := { blank tag with value := v }

end Resolved

/-- How far the resolution of a slot has come, once it has begun. -/
inductive Progress where
  | resolving
  | resolved (entry : Resolved)
  deriving DecidableEq, Repr

/-- The slots whose resolution has begun; every other slot is unresolved. -/
abbrev Memo := List (Nat × Progress)

namespace Memo

def progress? (memo : Memo) (slot : Nat) : Option Progress := memo.lookup slot

/-- Make a slot unresolved. -/
def forget (memo : Memo) (slot : Nat) : Memo := memo.filter (·.1 != slot)

def note (memo : Memo) (slot : Nat) (progress : Progress) : Memo :=
  (slot, progress) :: memo.forget slot

/-- The resolution of the slot is under way. -/
def isUnderWay (memo : Memo) (slot : Nat) : Bool := memo.progress? slot = some .resolving

end Memo

/-- An action that may fail and keeps the memory either way. -/
abbrev Resolving := EStateM Fault Memo

/-- Resolve a slot, which is under way meanwhile. -/
def Resolving.marking (slot : Nat) (resolve : Resolving Resolved) : Resolving Resolved :=
  fun memo =>
    match resolve (memo.note slot .resolving) with
    | .ok found memo => .ok found (memo.note slot (.resolved found))
    | .error fault memo => .error fault (memo.forget slot)

/-- Answer from memory, or resolve the entry and remember the answer. The expected kind is
checked against the slot as it is now. -/
def remembering (pool : Pool) (index : Int) (expected : Wanted)
    (resolve : Entry → Resolving Resolved) : Resolving Resolved := do
  let memo ← get
  match pool.reach memo.isUnderWay index with
  | .error fault => throw fault
  | .ok entry =>
      if ¬ expected.accepts entry.tag then
        throw (faultAt (.entryKind expected index.toNat entry.tag) index)
      match memo.progress? index.toNat with
      | some (.resolved found) => return found
      | _ => Resolving.marking index.toNat (resolve entry)

def unsupported (index : Int) (tag : Tag) : Fault :=
  faultAt (.unsupportedConstant index.toNat tag) index

/-- Resolve an entry that refers to no other. -/
def leaf (index : Int) (entry : Entry) : Resolving Resolved :=
  match entry with
  | .utf8 text => return { Resolved.blank .utf8 with text := some text }
  | .integer v => return .ofValue .integer (.int v)
  | .float bits => return .ofValue .float (.float bits)
  | .long v => return .ofValue .long (.long v)
  | .double bits => return .ofValue .double (.double bits)
  | entry => throw (unsupported index entry.tag)

def utf8Memo (pool : Pool) (index : Int) : Resolving Resolved :=
  pool.remembering index (.tagged .utf8) (leaf index)

/-- Resolve an entry whose references are all texts. -/
def shallow (pool : Pool) (index : Int) (entry : Entry) : Resolving Resolved := do
  match entry with
  | .classRef name =>
      let name ← pool.utf8Memo name
      return { Resolved.blank .classRef with owner := name.text }
  | .string text =>
      let text ← pool.utf8Memo text
      return { Resolved.blank .string with text := text.text }
  | .nameAndType parts =>
      let name ← pool.utf8Memo parts.first
      let descriptor ← pool.utf8Memo parts.second
      return { Resolved.blank .nameAndType with name := name.text, descriptor := descriptor.text }
  | entry => leaf index entry

def shallowMemo (pool : Pool) (index : Int) (tag : Tag) : Resolving Resolved :=
  pool.remembering index (.tagged tag) (pool.shallow index)

/-- Resolve any entry. -/
def deep (pool : Pool) (index : Int) (entry : Entry) : Resolving Resolved := do
  match entry with
  | .member kind parts =>
      let owner ← pool.shallowMemo parts.first .classRef
      let found ← pool.shallowMemo parts.second .nameAndType
      return { Resolved.blank kind.tag with
        owner := owner.owner, name := found.name, descriptor := found.descriptor }
  | entry => pool.shallow index entry

/-- Resolve a slot that must be of the expected kind. -/
def resolveMemo (pool : Pool) (index : Int) (expected : Wanted) : Resolving Resolved :=
  pool.remembering index expected (pool.deep index)

/-! ## Entry points -/

def resolveText (pool : Pool) (index : Int) : Resolving (Option String) := do
  return (← pool.resolveMemo index (.tagged .utf8)).text

def resolveClass (pool : Pool) (index : Int) : Resolving Resolved :=
  pool.resolveMemo index (.tagged .classRef)

def resolveNameAndType (pool : Pool) (index : Int) : Resolving Resolved :=
  pool.resolveMemo index (.tagged .nameAndType)

def resolveField (pool : Pool) (index : Int) : Resolving Resolved :=
  pool.resolveMemo index (.tagged .field)

/-- A method reference, which may also name a method of an interface. -/
def resolveMethod (pool : Pool) (index : Int) : Resolving Resolved :=
  if pool.isWithin index ∧ pool.tagAt index.toNat = .interfaceMethod then
    pool.resolveMemo index (.tagged .interfaceMethod)
  else pool.resolveMemo index (.tagged .method)

def resolveInterfaceMethod (pool : Pool) (index : Int) : Resolving Resolved :=
  pool.resolveMemo index (.tagged .interfaceMethod)

def resolveLoadable (pool : Pool) (index : Int) (wide : Bool) : Resolving Resolved :=
  match pool.visit [] index with
  | .error fault => throw fault
  | .ok entry =>
      if (if wide then entry.tag.isWide else entry.tag.isLoadable) then
        pool.resolveMemo index (.tagged entry.tag)
      else throw (refuseLoad index.toNat entry.tag wide)

end Jvm.Pool
