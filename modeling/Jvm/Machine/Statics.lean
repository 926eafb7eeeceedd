/-
# Jvm.Machine.Statics — preparing the static fields of a class

The first use of a class on a thread makes its record. The record is entered before its
fields are filled, and filling them can halt, since the text of a string constant needs
an object. The fields that were not reached then stay unset.
-/
import Jvm.Machine.Memory

namespace Jvm

set_option autoImplicit false

namespace Statics

/-- What a static field holds before anything is assigned to it. -/
def firstValue (c : LinkedClass) (field : Field) : Exec Value := do
  let type := field.stackType
  if field.constantIndex = 0 then return .zero type
  let constant ← Exec.ofFault (c.pool.loadable field.constantIndex (type.size == 2))
  let v ← Exec.loadedValue constant
  if v.type.stackType ≠ type then
    Exec.fail (.initialValueType c.name field.name v.type type)
  return v

def fill (c : LinkedClass) : List Field → Exec Unit
  | [] => return
  | field :: rest => do
      if field.isStatic then
        let v ← firstValue c field
        Exec.updateThread fun thread => thread.putStatic c.id field.slot v
      fill c rest

/-- The record of a class on the current thread, made if there is none. -/
def prepare (c : LinkedClass) : Exec InitState := do
  match (← Exec.thread).record? c.id with
  | some record => return record.state
  | none =>
      let record : ClassRecord := ⟨c.id, .prepared, Array.replicate c.staticCount .unset⟩
      Exec.updateThread fun thread => { thread with records := record :: thread.records }
      fill c c.fields
      return .prepared

/-- The content of a static slot of a class that has a record. -/
def read (id : ClassId) (slot : Nat) : Exec Value := do
  match (← Exec.thread).record? id with
  | some record => return record.statics.getD slot .unset
  | none => Exec.violate .noStatics

def write (id : ClassId) (slot : Nat) (v : Value) : Exec Unit :=
  Exec.updateThread fun thread => thread.putStatic id slot v

end Statics

end Jvm
