/-
# Jvm.Pool.Resolve — following the references of a pool

Resolving a slot replaces the slot numbers in its entry by what they stand for, at any
depth. The functions here do that without remembering anything. They carry the slots
whose resolution is under way (`path`), and a reference back into the path is a
circular reference; that check comes before the one on the kind of entry.

Each kind of entry has its own function with its own type of answer: a text, a class
name, a name with a descriptor, a member, a loadable constant.
-/
import Jvm.Pool

namespace Jvm.Pool

set_option autoImplicit false

def faultAt (cause : Cause) (index : Int) : Fault := (Fault.of cause).atIndex index

/-- The entry in a slot, unless the slot is unusable or its resolution is under way. -/
def reach (pool : Pool) (underWay : Nat → Bool) (index : Int) : Except Fault Entry :=
  if ¬ pool.isWithin index then .error (faultAt (.indexOutOfRange index pool.length) index)
  else
    match pool.entryAt index.toNat with
    | none => .error (faultAt (.unusableSlot index.toNat) index)
    | some entry =>
        if underWay index.toNat then
          .error (faultAt (.circularEntry index.toNat entry.tag) index)
        else .ok entry

def visit (pool : Pool) (path : List Nat) (index : Int) : Except Fault Entry :=
  pool.reach path.contains index

/-- Read an entry that must be of one kind. -/
def select {α : Type} (pool : Pool) (path : List Nat) (index : Int) (expected : Tag)
    (view : Entry → Option α) : Except Fault α :=
  match pool.visit path index with
  | .error fault => .error fault
  | .ok entry =>
      match view entry with
      | some found => .ok found
      | none => .error (faultAt (.entryKind (.tagged expected) index.toNat entry.tag) index)

def utf8At (pool : Pool) (path : List Nat) (index : Int) : Except Fault String :=
  pool.select path index .utf8 Entry.text?

def classAt (pool : Pool) (path : List Nat) (index : Int) : Except Fault String :=
  match pool.select path index .classRef Entry.className? with
  | .error fault => .error fault
  | .ok name => pool.utf8At (index.toNat :: path) name

structure NameAndType where
  name : String
  descriptor : String
  deriving DecidableEq, Repr

def nameAndTypeAt (pool : Pool) (path : List Nat) (index : Int) : Except Fault NameAndType :=
  match pool.select path index .nameAndType Entry.nameAndType? with
  | .error fault => .error fault
  | .ok parts =>
      match pool.utf8At (index.toNat :: path) parts.first with
      | .error fault => .error fault
      | .ok name =>
          match pool.utf8At (index.toNat :: path) parts.second with
          | .error fault => .error fault
          | .ok descriptor => .ok ⟨name, descriptor⟩

structure Member where
  owner : String
  name : String
  descriptor : String
  deriving DecidableEq, Repr

def memberAt (pool : Pool) (kind : MemberKind) (path : List Nat) (index : Int) :
    Except Fault Member :=
  match pool.select path index kind.tag (Entry.member? kind) with
  | .error fault => .error fault
  | .ok parts =>
      match pool.classAt (index.toNat :: path) parts.first with
      | .error fault => .error fault
      | .ok owner =>
          match pool.nameAndTypeAt (index.toNat :: path) parts.second with
          | .error fault => .error fault
          | .ok found => .ok ⟨owner, found.name, found.descriptor⟩

/-! ## Entry points -/

def field (pool : Pool) (index : Int) : Except Fault Member := pool.memberAt .field [] index

/-- A method reference, which may also name a method of an interface. -/
def method (pool : Pool) (index : Int) : Except Fault Member :=
  if pool.isWithin index ∧ pool.tagAt index.toNat = .interfaceMethod then
    pool.memberAt .interfaceMethod [] index
  else pool.memberAt .method [] index

def interfaceMethod (pool : Pool) (index : Int) : Except Fault Member :=
  pool.memberAt .interfaceMethod [] index

def className (pool : Pool) (index : Int) : Except Fault String := pool.classAt [] index

/-- A constant that an instruction can load. -/
inductive Loadable where
  | value (v : Value)
  | string (text : String)
  deriving DecidableEq, Repr

/-- Why an entry that is not loadable in the asked width is refused. -/
def refuseLoad (index : Nat) (tag : Tag) (wide : Bool) : Fault :=
  match tag with
  | .classRef | .methodType | .methodHandle | .dynamic =>
      faultAt (.unsupportedLoad tag index) index
  | _ => faultAt (.notLoadable index tag wide) index

def loadable (pool : Pool) (index : Int) (wide : Bool) : Except Fault Loadable :=
  match pool.visit [] index with
  | .error fault => .error fault
  | .ok entry =>
      match entry, wide with
      | .integer v, false => .ok (.value (.int v))
      | .float bits, false => .ok (.value (.float bits))
      | .long v, true => .ok (.value (.long v))
      | .double bits, true => .ok (.value (.double bits))
      | .string text, false =>
          match pool.utf8At [index.toNat] text with
          | .error fault => .error fault
          | .ok text => .ok (.string text)
      | entry, wide => .error (refuseLoad index.toNat entry.tag wide)

end Jvm.Pool
