/-
# Jvm.Machine.Initialization — initializing classes

A class is initialized on a thread before it is first used there, and its superclass
before it. An initializer that is code is not run here: its frame is put on the call
stack, and `ensureReady` answers that the class is not ready yet. Whoever asked asks again
once that frame has returned. A class that is being initialized counts as ready, so an
initializer can use its own class. A class whose initializer failed stays failed.
-/
import Jvm.Native.Run

namespace Jvm

set_option autoImplicit false

namespace Initialization

def setState (id : ClassId) (state : InitState) : Exec Unit :=
  Exec.updateThread fun thread => thread.setInitState id state

/-- Run an action of an initialization, and mark the class failed if it halts. -/
def failing {α : Type} (id : ClassId) (action : Exec α) : Exec α :=
  action.onHalt fun machine => machine.updateThread fun thread => thread.setInitState id .failed

/-- Run an initializer that is native. -/
def runNative (c : LinkedClass) (native : Option Native) : Exec Unit :=
  match native with
  | none => Exec.fail (.nativeUnbound (c.name ++ ".<clinit>()V"))
  | some native => do
      let _ ← native.run []

/-- Start the initializer of a class; whether the class is ready at once. -/
def start (c : LinkedClass) : Exec Bool := do
  Exec.trace (·.traceInitialization) s!"[Initializing {c.name}]"
  match c.initializer? with
  | none =>
      setState c.id .ready
      return true
  | some method =>
      setState c.id .running
      if method.isNative then
        failing c.id (runNative c method.native)
        setState c.id .ready
        return true
      else
        failing c.id (Exec.pushFrame { Frame.start method with initializing := some c.id })
        return false

/-- Initialize the first class of a chain of superclasses; whether it is ready. -/
def initializeChain : List ClassId → Exec Bool
  | [] => return true
  | id :: supers => do
      let c ← Exec.classOf id
      match ← Statics.prepare c with
      | .ready | .running => return true
      | .failed => Exec.fail (.initializationFailed c.name)
      | .prepared =>
          if ← failing id (initializeChain supers) then start c else return false

/-- Initialize a class; whether it is ready. -/
def ensureReady (c : LinkedClass) : Exec Bool := initializeChain c.chain

end Initialization

end Jvm
