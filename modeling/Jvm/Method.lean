/-
# Jvm.Method — methods

A method has a name, a descriptor, flags, and a body when it is executed from code.
The number of argument slots and the result type are read off the descriptor once,
when the method is made; `ofDescriptor` refuses a malformed one. Argument slots
include one for the receiver of an instance method and are kept in sixteen bits.
-/
import Jvm.AccessFlags
import Jvm.ClassId
import Jvm.Code
import Jvm.Descriptor
import Jvm.Halt
import Jvm.Native

namespace Jvm

set_option autoImplicit false

/-- A row of an exception table. -/
structure ExceptionRange where
  start : Nat
  stop : Nat
  handler : Nat
  catchType : Nat
  deriving DecidableEq, Repr

/-- A row of a line number table. -/
structure LineEntry where
  start : Nat
  line : Nat
  deriving DecidableEq, Repr

structure Body where
  maxStack : Nat
  maxLocals : Nat
  code : Code
  exceptions : List ExceptionRange
  lines : List LineEntry
  deriving DecidableEq, Repr

/-- The body of a method without code. -/
def Body.empty : Body := ⟨0, 0, #[], [], []⟩

/-- A text of a class together with the pool slot it stands in. -/
structure PoolText where
  index : Nat
  text : String
  deriving DecidableEq, Repr

structure Method where
  nameText : PoolText
  descriptorText : PoolText
  flags : AccessFlags
  body : Body
  argSlots : Nat
  result : BasicType
  native : Option Native
  /-- The class that declares the method, known once that class is linked. -/
  owner : Option ClassId
  deriving DecidableEq, Repr

namespace Method

def name (method : Method) : String := method.nameText.text

def descriptor (method : Method) : String := method.descriptorText.text

def isStatic (method : Method) : Bool := method.flags.isStatic

def isNative (method : Method) : Bool := method.flags.isNative

def isAbstract (method : Method) : Bool := method.flags.isAbstract

def isPrivate (method : Method) : Bool := method.flags.isPrivate

def code (method : Method) : Code := method.body.code

def codeSize (method : Method) : Nat := method.body.code.size

def hasCode (method : Method) : Bool := method.codeSize != 0

def isObjectInitializer (method : Method) : Bool := method.name == "<init>"

def isClassInitializer (method : Method) : Bool := method.name == "<clinit>"

/-- The slot of the receiver and the parameters, kept in sixteen bits. -/
def argSlotsOf (isStatic : Bool) (paramSlots : Nat) : Nat :=
  (paramSlots + if isStatic then 0 else 1) % 65536

/-- A method of no class yet, if its descriptor is well formed. -/
def ofDescriptor (name descriptor : PoolText) (flags : AccessFlags) (body : Body) :
    Except Cause Method :=
  match Descriptor.paramSlots? descriptor.text with
  | none => .error (.methodDescriptor name.text descriptor.text)
  | some slots =>
      .ok {
        nameText := name
        descriptorText := descriptor
        flags := flags
        body := body
        argSlots := argSlotsOf flags.isStatic slots
        result := Descriptor.resultType descriptor.text
        native := none
        owner := none }

/-- The line of the table row with the greatest start that is not after the index. -/
def lineAt? (method : Method) (bci : Int) : Option Nat :=
  let best := method.body.lines.foldl (fun (best : Option LineEntry) row =>
    match best with
    | none => if (row.start : Int) ≤ bci then some row else none
    | some found => if (row.start : Int) ≤ bci ∧ found.start < row.start then some row else best)
    none
  best.map (·.line)

/-- The longest description of a method kept. -/
def describeLimit : Nat := 255

def ownerName (method : Method) : String :=
  match method.owner with
  | some id => id.name
  | none => "?"

def describe (method : Method) : String :=
  Text.clip describeLimit (method.ownerName ++ "." ++ method.name ++ method.descriptor)

def summary (method : Method) : String :=
  s!"Method {method.describe} flags={method.flags.describe} code_size={method.codeSize} " ++
    s!"max_stack={method.body.maxStack} max_locals={method.body.maxLocals} " ++
    s!"params={method.argSlots}" ++
    (if method.isNative then
      " native=" ++ (if method.native.isSome then "bound" else "unbound")
    else "") ++ "\n"

/-- The part of a method that does not change. Where it lies is written `*`. -/
def constSummary (method : Method) : String :=
  s!"ConstMethod(*): name_index={method.nameText.index}, " ++
    s!"sig_index={method.descriptorText.index}, code_size={method.codeSize}, " ++
    s!"max_stack={method.body.maxStack}, max_locals={method.body.maxLocals}"

end Method

end Jvm
