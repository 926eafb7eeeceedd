/-
# Jvm.Machine.Step — executing one instruction

The instruction at the position of the top frame is checked, decoded and executed. What
needs only the frame is left to `LocalInstr.run`; here are the instructions that load
constants, use fields, create objects, call methods and return. An instruction that finds
a class not ready yet has touched nothing: the initializer's frame is now on top, and the
same instruction runs again once that frame has returned.

A fault gets the place of the instruction. `runAbove` executes instructions until the call
stack is down to a given depth.
-/
import Jvm.Machine.Initialization
import Jvm.Machine.Linking

namespace Jvm

set_option autoImplicit false

namespace Exec

/-- The class whose method a frame executes. -/
def holder (frame : Frame) : Exec LinkedClass :=
  match frame.method.owner with
  | some id => classOf id
  | none => violate .unknownClass

/-- The pool of the method that the top frame executes. -/
def currentPool : Exec Pool := do
  return (← holder (← topFrame)).pool

/-! ## Constants and objects -/

def loadConstant (index : Nat) (wide : Bool) (length : Nat) : Exec Unit := do
  let constant ← ofFault ((← currentPool).loadable index wide)
  let v ← loadedValue constant
  onTop do
    FrameM.push v
    FrameM.advance length

def create (index : Nat) (length : Nat) : Exec Unit := do
  let c ← Linking.resolveNew (← currentPool) index
  if ← Initialization.ensureReady c then
    let ref ← allocate c
    onTop do
      FrameM.push (.ref (some ref))
      FrameM.advance length

/-! ## Fields -/

/-- A value as a field of the declared type keeps it. -/
def narrowedTo (type : BasicType) : Value → Value
  | .int v => .int (FrameM.narrowed type v)
  | v => v

/-- The slot of a field in an object that must have it. -/
def checkField (ref : Ref) (field : LinkedField) : Exec Unit := do
  let object ← object ref
  let c ← classOf object.classId
  if ¬ c.isSubclassOf field.owner.id ∨ object.fields.size ≤ field.slot then
    fail (.foreignObject c.name field.owner.name field.name)

def getStatic (field : LinkedField) (length : Nat) : Exec Unit := do
  if ← Initialization.ensureReady field.owner then
    let v ← Statics.read field.owner.id field.slot
    onTop do
      FrameM.push v
      FrameM.advance length

def putStatic (field : LinkedField) (length : Nat) : Exec Unit := do
  if ← Initialization.ensureReady field.owner then
    let v ← onTop (FrameM.pop field.type)
    Statics.write field.owner.id field.slot (narrowedTo field.type v)
    onTop (FrameM.advance length)

def getField (linked : LinkedField) (length : Nat) : Exec Unit := do
  match ← onTop FrameM.popRef with
  | none => fail (.nullFieldRead linked.name)
  | some ref =>
      checkField ref linked
      let v ← field ref linked.slot
      onTop do
        FrameM.push v
        FrameM.advance length

def setField (linked : LinkedField) (length : Nat) : Exec Unit := do
  let v ← onTop (FrameM.pop linked.type)
  match ← onTop FrameM.popRef with
  | none => fail (.nullFieldWrite linked.name)
  | some ref =>
      checkField ref linked
      putField ref linked.slot (narrowedTo linked.type v)
      onTop (FrameM.advance length)

def accessField (access : FieldAccess) (index : Nat) (length : Nat) : Exec Unit := do
  let field ← Linking.resolveField (← currentPool) index access
  match access with
  | .getStatic => getStatic field length
  | .putStatic => putStatic field length
  | .getField => getField field length
  | .putField => setField field length

/-! ## Calls -/

/-- Take values of the given types off the stack; the last type is on top. -/
def popArguments (types : List BasicType) : FrameM (List Value) := do
  return (← types.reverse.mapM FrameM.pop).reverse

/-- The most parameters that a call passes. -/
def parameterLimit : Nat := 255

/-- Call a native method and push its result. -/
def callNative (method : Method) (arguments : List Value) : Exec Unit := do
  match method.native with
  | none => fail (.nativeUnbound method.describe)
  | some native =>
      let result := (← native.run arguments).getD .void
      let type := method.result.stackType
      if type ≠ .void then
        if result.type ≠ type then fail (.nativeResult method.describe result.type)
        onTop (FrameM.push result)

/-- Call a method with its arguments, the receiver first. -/
def enter (method : Method) (arguments : List Value) : Exec Unit := do
  if method.isNative then callNative method arguments
  else if method.isAbstract ∨ ¬ method.hasCode then fail (.abstractMethod method.describe)
  else pushFrame (← ofHalt (Frame.withArguments method arguments))

/-- The receiver of a call, which must not be null. -/
def popReceiver (method : Method) : Exec Ref := do
  match ← onTop FrameM.popRef with
  | some ref => return ref
  | none => fail (.nullReceiver method.ownerName method.name method.descriptor)

/-- The method that runs on a receiver. -/
def callee (kind : InvokeKind) (method : Method) (receiver : Ref) : Exec Method := do
  match kind with
  | .virtual | .interface =>
      let c ← classOf (← object receiver).classId
      Linking.selectVirtual c method
  | .special | .static => return method

/-- Take the arguments of a resolved method off the stack and call it. -/
def callWith (kind : InvokeKind) (method : Method) (length : Nat) : Exec Unit := do
  let types := Descriptor.paramTypes method.descriptor
  if parameterLimit < types.length then fail .tooManyParameters
  let arguments ← onTop (popArguments types)
  match kind with
  | .static =>
      onTop (FrameM.advance length)
      enter method arguments
  | _ =>
      let receiver ← popReceiver method
      let selected ← callee kind method receiver
      onTop (FrameM.advance length)
      enter selected (.ref (some receiver) :: arguments)

/-- Whether the class of a static method is ready; other methods need no check. -/
def readyToCall (kind : InvokeKind) (method : Method) : Exec Bool := do
  match kind, method.owner with
  | .static, some id => Initialization.ensureReady (← classOf id)
  | .static, none => violate .unknownClass
  | _, _ => return true

def invoke (kind : InvokeKind) (index : Nat) (length : Nat) : Exec Unit := do
  let caller ← holder (← topFrame)
  let method ← Linking.resolveInvoke caller.pool index kind (some caller)
  if ← readyToCall kind method then callWith kind method length

/-! ## Returning -/

/-- Push a result on the frame below the top one. -/
def pushOnCaller (v : Value) : Exec Unit := do
  match (← thread).frames with
  | _ :: caller :: _ =>
      match caller.stack.push v with
      | .ok stack =>
          updateThread fun thread =>
            { thread with calls := thread.calls.modify 1 fun frame => { frame with stack := stack } }
      | .error halt => throw halt
  | _ => violate .noFrame

/-- Drop the top frame, which has returned; an initializer that it ran is finished. -/
def leave (frame : Frame) : Exec Unit := do
  match frame.initializing with
  | some id => Initialization.setState id .ready
  | none => pure ()
  popFrame

/-- Return from the top frame. The result of an entry frame is the answer. -/
def returnValue (type : BasicType) : Exec (Option Value) := do
  let frame ← topFrame
  let declared := frame.method.result.stackType
  if type ≠ declared then fail (.returnType type frame.method.describe declared)
  let result ← if type = .void then pure .void else onTop (FrameM.pop type)
  if ¬ frame.isEntry ∧ type ≠ .void then pushOnCaller result
  leave frame
  return if frame.isEntry then some result else none

/-! ## One step -/

def execute (instr : Instr) (length : Nat) : Exec (Option Value) := do
  match instr with
  | .inFrame instr =>
      onTop (instr.run length)
      return none
  | .constant index wide =>
      loadConstant index wide length
      return none
  | .allocate index =>
      create index length
      return none
  | .field access index =>
      accessField access index length
      return none
  | .invoke kind index =>
      invoke kind index length
      return none
  | .ret type => returnValue type

/-- A place in a method, with the opcode there if it is known. -/
def siteOf (method : Method) (bci : Nat) (opcode : Option Nat) : Site :=
  ⟨method.ownerName, method.name, bci, opcode, method.lineAt? bci⟩

/-- Give the fault of an action its place. -/
def atSite {α : Type} (method : Method) (bci : Nat) (opcode : Option Nat) (action : Exec α) :
    Exec α :=
  mapFault (fun fault => fault.atSite (siteOf method bci opcode)) action

def traceLine (depth : Nat) (frame : Frame) (opcode : Nat) : String :=
  let column (width : Nat) (n : Nat) : String := Text.alignRight width ' ' (toString n)
  "[" ++ column 3 depth ++ "] " ++ column 5 frame.bci ++ "  " ++
    Text.alignLeft 16 (Opcode.name opcode) ++ " sp=" ++
    Text.alignLeft 3 (toString frame.stack.used) ++ " " ++ frame.method.describe

def traceInstruction (opcode : Nat) : Exec Unit := do
  let machine ← get
  if machine.options.traceBytecodes then
    trace (·.traceBytecodes) (traceLine machine.thread.depth (← topFrame) opcode)

/-- Execute the instruction at a position of the code that the top frame executes. -/
def executeAt (code : Code) (bci : Nat) (opcode : Nat) : Exec (Option Value) := do
  if ¬ Opcode.isExecutable opcode then
    fail (.unsupportedOpcode opcode (Opcode.name opcode))
  match code.instructionLength? code.size bci with
  | none => fail (.truncatedInstruction (Opcode.name opcode) bci)
  | some length =>
      traceInstruction opcode
      execute (Instr.decode code bci) length

/-- Execute one instruction of the top frame. An entry frame that returns has an answer. Only
the frame's place is held on to, so that the frame itself is changed in place. -/
def step : Exec (Option Value) := do
  let frame ← topFrame
  let method := frame.method
  let bci := frame.bci
  match method.code[bci]? with
  | none => atSite method bci none (fail (.codeEnd bci method.codeSize))
  | some byte =>
      let opcode := byte.toNat
      atSite method bci (some opcode) (executeAt method.code bci opcode)

/-- Execute instructions until there are no more frames than `base`. The answer is that of
the last entry frame that returned, or `result` if there was none. -/
def runAbove (base : Nat) (result : Value) : Nat → Exec Value
  | 0 => throw .outOfFuel
  | fuel + 1 => do
      if base < (← thread).depth then
        let answer ← step
        runAbove base (answer.getD result) fuel
      else return result

end Exec

end Jvm
