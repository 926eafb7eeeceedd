/-
# Jvm.Machine.Call — calling a method from outside

A call checks its arguments against the method, initializes the class, and runs the method
in an entry frame until that frame has returned. Whatever happens, the call stack and the
state of the thread are afterwards what they were before: a halt drops the frames of the
call, and the initializers that were running in them are failed.
-/
import Jvm.Machine.Step

namespace Jvm

set_option autoImplicit false

namespace Call

/-- Check arguments against parameter types, from a position on. -/
def checkTypes (method : Method) (position : Nat) : List BasicType → List Value →
    Except Cause Unit
  | [], [] => .ok ()
  | [], rest =>
      .error (.argumentCount method.describe position (position + rest.length))
  | type :: _, [] =>
      .error (.argumentType position method.describe type.stackType none)
  | type :: types, v :: rest =>
      if v.type = type.stackType then checkTypes method (position + 1) types rest
      else .error (.argumentType position method.describe type.stackType (some v.type))

/-- Check the arguments of a call; an instance method has its receiver first. -/
def checkArguments (method : Method) (arguments : List Value) : Except Cause Unit :=
  let types := Descriptor.paramTypes method.descriptor
  if method.isStatic then checkTypes method 0 types arguments
  else
    match arguments with
    | receiver :: rest =>
        if receiver.isReference then checkTypes method 1 types rest
        else .error (.needsReceiver method.describe)
    | [] => .error (.needsReceiver method.describe)

/-- Initialize a class, running the initializers that this puts on the call stack. -/
def initializeFully (fuel : Nat) (c : LinkedClass) : Nat → Exec Unit
  | 0 => throw .outOfFuel
  | tries + 1 => do
      let base := (← Exec.thread).depth
      if ← Initialization.ensureReady c then return
      let _ ← Exec.runAbove base .void fuel
      initializeFully fuel c tries

/-- Call a native method. -/
def runNative (method : Method) (arguments : List Value) : Exec Value := do
  match method.native with
  | none => Exec.fail (.nativeUnbound method.describe)
  | some native =>
      let unanswered : Value := if method.result = .void then .void else .unset
      return (← native.run arguments).getD unanswered

/-- Call a method whose class is ready. -/
def runReady (fuel : Nat) (method : Method) (arguments : List Value) : Exec Value := do
  if method.isNative then runNative method arguments
  else if method.isAbstract ∨ ¬ method.hasCode then Exec.fail (.noCode method.describe)
  else
    let base := (← Exec.thread).depth
    let frame ← Exec.ofHalt (Frame.withArguments method arguments)
    Exec.pushFrame { frame with isEntry := true }
    Exec.runAbove base .void fuel

def runChecked (fuel : Nat) (method : Method) (arguments : List Value) : Exec Value := do
  Exec.ofCause (checkArguments method arguments)
  match method.owner with
  | none => Exec.violate .unknownClass
  | some id =>
      initializeFully fuel (← Exec.classOf id) fuel
      runReady fuel method arguments

/-- Call a method. At most `fuel` instructions are executed between two stops. -/
def run (fuel : Nat) (method : Method) (arguments : List Value) : Exec Value := do
  let before ← Exec.thread
  let depth := before.depth
  let state := before.state
  Exec.updateThread fun thread => { thread with state := .inProgram }
  let restore (machine : Machine) : Machine :=
    machine.updateThread fun thread => { thread with state := state }
  let result ← (runChecked fuel method arguments).onHalt fun machine =>
    restore (machine.updateThread fun thread => thread.unwindTo depth)
  modify restore
  return result

/-- Call the nearest declaration of a method in a class or its superclasses. -/
def runNamed (fuel : Nat) (c : LinkedClass) (name descriptor : String) (arguments : List Value) :
    Exec Value := do
  match (← get).findMethod? c.chain name descriptor with
  | none => Exec.fail (.noMethod c.name name descriptor)
  | some method => run fuel method arguments

end Call

end Jvm
