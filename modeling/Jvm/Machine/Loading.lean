/-
# Jvm.Machine.Loading — the dictionary of classes

A class is found by its name in the dictionary, or read from a file below the class path
and then linked. Linking needs the superclass, which is found in the same way first; the
names that are being loaded are carried along, and meeting one of them again is a
circular reference. Each class on the way has a file of its own, so the number of files
bounds how far the superclasses are followed.
-/
import Jvm.Class.Build
import Jvm.ClassFile.Reader
import Jvm.Machine

namespace Jvm

set_option autoImplicit false

namespace Loading

/-- The path of the file of a class below the class path. -/
def filePath (classpath name : String) : String :=
  classpath ++ "/" ++ name.map (fun c => if c = '.' then '/' else c) ++ ".class"

/-- Read the class of a name from its file; nothing if there is no file. -/
def load (name : String) : Exec (Option Class) := do
  let machine ← get
  let path := filePath machine.options.classpath name
  match machine.files.read? path with
  | none => return none
  | some content =>
      let c ← Exec.ofFault (Class.ofBytes path content)
      if c.name ≠ name then Exec.fail (.wrongName name c.name)
      Exec.trace (·.traceLoading) s!"[Loaded {name} from {path}]"
      return some c

/-- The superclass of a class, found by the given search. -/
def superOf (find : String → Exec LinkedClass) (name : String) (superName : Option String) :
    Exec (Option LinkedClass) := do
  match superName with
  | none => return none
  | some above =>
      if above = name then Exec.fail (.ownSuperclass name)
      let super ← find above
      if super.isInterface then Exec.fail (.interfaceAsSuperclass name super.name)
      return some super

/-- Link a class to its superclass and enter it into the dictionary. -/
def add (c : Class) (super : Option LinkedClass) : Exec LinkedClass := do
  let id : ClassId := ⟨c.name, (← get).generationOf c.name⟩
  let linked ← Exec.ofCause (LinkedClass.link c id super)
  modify fun machine => { machine with classes := linked :: machine.classes }
  Exec.trace (·.traceLoading) s!"[Defined {c.name}]"
  return linked

/-- Find a class, or load it and its superclasses, while `loading` are being loaded. -/
def resolveWithin (fuel : Nat) (loading : List String) (name : String) : Exec LinkedClass := do
  let machine ← get
  match machine.findClass? name with
  | some c => return c
  | none =>
      if name ∈ loading then Exec.fail (.circularLoading name)
      match fuel with
      | 0 => throw .outOfFuel
      | fuel + 1 =>
          match ← load name with
          | none => Exec.fail (.classNotFound name machine.options.classpath)
          | some c => add c (← superOf (resolveWithin fuel (name :: loading)) c.name c.superName)

/-- Find a class, or load it and its superclasses. -/
def resolve (name : String) : Exec LinkedClass := do
  resolveWithin ((← get).files.count + 1) [] name

/-- The superclass of a class that is new under its name. -/
def superOfNew (name : String) (superName : Option String) : Exec (Option LinkedClass) := do
  if ((← get).findClass? name).isSome then Exec.fail (.duplicateClass name)
  superOf resolve name superName

/-- Link a class that was made elsewhere and enter it into the dictionary. -/
def define (c : Class) : Exec LinkedClass := do
  add c (← superOfNew c.name c.superName)

/-- Make a class of parts, link it and enter it into the dictionary. -/
def defineParts (parts : ClassParts) : Exec LinkedClass := do
  Exec.ofHalt parts.checkMethods
  let super ← superOfNew parts.name parts.superName
  Exec.ofHalt parts.checkFields
  add (← Exec.ofHalt parts.toClass) super

end Loading

end Jvm
