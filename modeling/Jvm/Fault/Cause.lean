/-
# Jvm.Fault.Cause — everything that can go wrong

A fault has one cause, and each cause is a constructor with the data its message
needs. Three functions read a cause: `kind` and `reason` classify it, and `message`
words it. Causes are grouped by the part that finds them: reading class files,
checking and resolving constants, frames, classes and the dictionary, symbolic
references, the heap, and execution.

A method in a message is given by its description `Holder.name(signature)`.
-/
import Jvm.BasicType
import Jvm.Pool.Tag
import Jvm.Text

namespace Jvm

set_option autoImplicit false

open Pool (Tag Wanted)

inductive FaultKind where
  /-- A class file or constant pool is malformed. -/
  | format
  /-- A symbolic reference does not resolve. -/
  | resolution
  /-- A stack, local variable or code bound is exceeded. -/
  | frame
  /-- A value does not have the type that its use needs. -/
  | type
  | unsupported
  | callDepth
  /-- The program would throw an exception. -/
  | throwable
  deriving DecidableEq, Repr

def FaultKind.name : FaultKind → String
  | .format => "FormatError"
  | .resolution => "ResolutionError"
  | .frame => "FrameFault"
  | .type => "TypeFault"
  | .unsupported => "UnsupportedOperation"
  | .callDepth => "CallStackOverflow"
  | .throwable => "JavaThrowable"

inductive FaultReason where
  | badIndex | kindMismatch | circularReference | classNotFound | noSuchField | noSuchMethod
  | arithmetic | nullPointer | outOfMemory
  deriving DecidableEq, Repr

def FaultReason.name : FaultReason → String
  | .badIndex => "BadIndex"
  | .kindMismatch => "KindMismatch"
  | .circularReference => "CircularReference"
  | .classNotFound => "ClassNotFound"
  | .noSuchField => "NoSuchField"
  | .noSuchMethod => "NoSuchMethod"
  | .arithmetic => "java/lang/ArithmeticException"
  | .nullPointer => "java/lang/NullPointerException"
  | .outOfMemory => "java/lang/OutOfMemoryError"

inductive Cause where
  -- Reading class files
  | truncated (source : String) (wanted : Int) (offset remaining : Nat)
  | badMagic (magic : Nat) (source : String)
  | badVersion (major minor : Nat) (source : String)
  | badPoolSize (length : Nat) (source : String)
  | needsTwoSlots (index : Nat) (tag : Tag) (source : String)
  | unknownTag (code index : Nat) (source : String)
  | interfaceNotAbstract (flags : Nat) (source : String)
  | badReference (what : String) (index : Nat) (source : String)
  | noSuperclass (source : String)
  | badFieldDescriptor (field owner descriptor : String)
  | constantValueLength (length : Nat) (source : String)
  | badInitialValue (index : Nat) (source : String)
  | inconsistentInitialValue (tag : Tag) (descriptor field source : String)
  | badMethodDescriptor (method owner descriptor : String)
  | multipleCode (method source : String)
  | absentCode (method descriptor source : String)
  | unexpectedCode (method source : String)
  | argumentsExceedLocals (method descriptor source : String)
  | codeSize (length : Nat) (source : String)
  | codeLength (length : Nat) (source : String)
  | lineTableLength (length : Nat) (source : String)
  | sourceFileLength (length : Nat) (source : String)
  | trailingBytes (source : String)
  -- Checking and resolving constants
  | entryRefersOutside (index : Nat) (tag : Tag) (target : Int) (length : Nat)
  | entryRefersUnusable (index : Nat) (tag : Tag) (target : Int)
  | entryRefersToKind (index : Nat) (tag : Tag) (target : Int) (found expected : Tag)
  | entryUndefined (index : Nat)
  | indexOutOfRange (index : Int) (length : Nat)
  | unusableSlot (index : Nat)
  | circularEntry (index : Nat) (tag : Tag)
  | entryKind (expected : Wanted) (index : Nat) (found : Tag)
  | unsupportedConstant (index : Nat) (tag : Tag)
  | unsupportedLoad (tag : Tag) (index : Nat)
  | notLoadable (index : Nat) (tag : Tag) (wide : Bool)
  -- Frames
  | localOutOfRange (index : Int) (limit : Nat)
  | localUnset (index : Nat)
  | localType (index : Nat) (found expected : BasicType)
  | stackOverflow (used limit : Nat)
  | stackUnderflow (used needed : Nat)
  | splitValue (slot : Nat)
  | operandType (expected found : BasicType)
  -- Classes and the dictionary
  | methodDescriptor (method descriptor : String)
  | fieldDescriptor (owner field descriptor : String)
  | circularLoading (name : String)
  | classNotFound (name classpath : String)
  | wrongName (requested found : String)
  | duplicateClass (name : String)
  | ownSuperclass (name : String)
  | interfaceAsSuperclass (name super : String)
  | initialValueType (owner field : String) (found expected : BasicType)
  | initializationFailed (name : String)
  -- Symbolic references
  | notInstantiable (isInterface : Bool) (name : String)
  | noField (owner field descriptor : String)
  | fieldStaticness (wantStatic : Bool) (owner field : String)
  | noMethod (owner method descriptor : String)
  | methodStaticness (wantStatic : Bool) (owner method descriptor : String)
  | notImplemented (receiver method descriptor : String)
  -- The heap
  | heapExhausted (size : Nat) (owner : String) (free capacity : Nat)
  -- Execution
  | codeEnd (bci size : Nat)
  | unsupportedOpcode (code : Nat) (mnemonic : String)
  | truncatedInstruction (mnemonic : String) (bci : Nat)
  | branchTarget (target : Int) (size : Nat)
  | divisionByZero
  | returnType (found : BasicType) (method : String) (declared : BasicType)
  | nullFieldRead (field : String)
  | nullFieldWrite (field : String)
  | nullReceiver (owner method descriptor : String)
  | foreignObject (found owner field : String)
  | tooManyParameters
  | nativeUnbound (method : String)
  | nativeResult (method : String) (found : BasicType)
  | abstractMethod (method : String)
  | callDepth (limit : Int) (method : String)
  | needsReceiver (method : String)
  | argumentType (position : Nat) (method : String) (expected : BasicType)
      (found : Option BasicType)
  | argumentCount (method : String) (expected found : Nat)
  | noCode (method : String)
  | nativeFailed
  deriving DecidableEq, Repr

namespace Cause

def kind : Cause → FaultKind
  | .truncated .. | .badMagic .. | .badVersion .. | .badPoolSize .. | .needsTwoSlots ..
  | .unknownTag .. | .interfaceNotAbstract .. | .badReference .. | .noSuperclass ..
  | .badFieldDescriptor .. | .constantValueLength .. | .badInitialValue ..
  | .inconsistentInitialValue .. | .badMethodDescriptor .. | .multipleCode .. | .absentCode ..
  | .unexpectedCode .. | .argumentsExceedLocals .. | .codeSize .. | .codeLength ..
  | .lineTableLength .. | .sourceFileLength .. | .trailingBytes .. => .format
  | .entryRefersOutside .. | .entryRefersUnusable .. | .entryRefersToKind ..
  | .entryUndefined .. => .format
  | .methodDescriptor .. | .fieldDescriptor .. | .wrongName .. | .duplicateClass ..
  | .interfaceAsSuperclass .. | .tooManyParameters => .format
  | .indexOutOfRange .. | .unusableSlot .. | .circularEntry .. | .entryKind ..
  | .notLoadable .. => .resolution
  | .circularLoading .. | .classNotFound .. | .ownSuperclass ..
  | .initializationFailed .. => .resolution
  | .notInstantiable .. | .noField .. | .fieldStaticness .. | .noMethod ..
  | .methodStaticness .. | .notImplemented .. | .abstractMethod .. | .noCode .. => .resolution
  | .localOutOfRange .. | .stackOverflow .. | .stackUnderflow .. | .codeEnd ..
  | .truncatedInstruction .. | .branchTarget .. => .frame
  | .localUnset .. | .localType .. | .splitValue .. | .operandType .. | .initialValueType ..
  | .returnType .. | .foreignObject .. | .nativeResult .. | .needsReceiver ..
  | .argumentType .. | .argumentCount .. => .type
  | .unsupportedConstant .. | .unsupportedLoad .. | .unsupportedOpcode ..
  | .nativeUnbound .. => .unsupported
  | .callDepth .. => .callDepth
  | .heapExhausted .. | .divisionByZero | .nullFieldRead .. | .nullFieldWrite ..
  | .nullReceiver .. | .nativeFailed => .throwable

def reason : Cause → Option FaultReason
  | .entryRefersOutside .. | .entryRefersUnusable .. | .entryUndefined ..
  | .indexOutOfRange .. | .unusableSlot .. => some .badIndex
  | .entryRefersToKind .. | .entryKind .. | .notLoadable .. | .notInstantiable .. =>
      some .kindMismatch
  | .circularEntry .. | .circularLoading .. | .ownSuperclass .. => some .circularReference
  | .classNotFound .. => some .classNotFound
  | .noField .. | .fieldStaticness .. => some .noSuchField
  | .noMethod .. | .methodStaticness .. | .notImplemented .. | .abstractMethod ..
  | .noCode .. => some .noSuchMethod
  | .divisionByZero | .nativeFailed => some .arithmetic
  | .nullFieldRead .. | .nullFieldWrite .. | .nullReceiver .. => some .nullPointer
  | .heapExhausted .. => some .outOfMemory
  | _ => none

/-- How a message says that a member should, or should not, be static. -/
def staticWord (wantStatic : Bool) : String := if wantStatic then "static" else "non-static"

def message : Cause → String
  | .truncated source wanted offset remaining =>
      s!"Truncated class file {source}: need {wanted} bytes at offset {offset}, " ++
        s!"{remaining} remaining"
  | .badMagic magic source =>
      "Incompatible magic value 0x" ++ Text.hexUpper 8 magic ++ s!" in class file {source}"
  | .badVersion major minor source =>
      s!"Unsupported class file version {major}.{minor} in {source}"
  | .badPoolSize length source =>
      s!"Illegal constant pool size {length} in class file {source}"
  | .needsTwoSlots index tag source =>
      s!"Invalid constant pool entry {index} in class file {source}: {tag.name} needs two slots"
  | .unknownTag code index source =>
      s!"Unknown constant tag {code} at index {index} in class file {source}"
  | .interfaceNotAbstract flags source =>
      "Illegal class modifiers 0x" ++ Text.hexUpper 4 flags ++
        s!" in {source}: interface must be abstract"
  | .badReference what index source => s!"Invalid {what} index {index} in class file {source}"
  | .noSuperclass source => s!"Invalid superclass index 0 in class file {source}"
  | .badFieldDescriptor field owner descriptor =>
      s!"Field \"{field}\" in class {owner} has illegal signature \"{descriptor}\""
  | .constantValueLength length source =>
      s!"Invalid ConstantValue field attribute length {length} in class file {source}"
  | .badInitialValue index source =>
      s!"Bad initial value index {index} in ConstantValue attribute of {source}"
  | .inconsistentInitialValue tag descriptor field source =>
      s!"Inconsistent constant value type {tag.name} for field {descriptor} {field} " ++
        s!"in class file {source}"
  | .badMethodDescriptor method owner descriptor =>
      s!"Method \"{method}\" in class {owner} has illegal signature \"{descriptor}\""
  | .multipleCode method source =>
      s!"Multiple Code attributes in method {method} in class file {source}"
  | .absentCode method descriptor source =>
      s!"Absent Code attribute in method {method}{descriptor} that is not native or abstract " ++
        s!"in class file {source}"
  | .unexpectedCode method source =>
      s!"Code attribute in native or abstract method {method} in class file {source}"
  | .argumentsExceedLocals method descriptor source =>
      s!"Arguments can't fit into locals in method {method}{descriptor} in class file {source}"
  | .codeSize length source => s!"Invalid method Code length {length} in class file {source}"
  | .codeLength length source =>
      s!"Code attribute length {length} does not match its contents in class file {source}"
  | .lineTableLength length source =>
      s!"Invalid LineNumberTable attribute length {length} in class file {source}"
  | .sourceFileLength length source =>
      s!"Wrong SourceFile attribute length {length} in class file {source}"
  | .trailingBytes source => s!"Extra bytes at the end of class file {source}"
  | .entryRefersOutside index tag target length =>
      s!"constant pool entry #{index} ({tag.name}) references #{target}, outside [1, {length})"
  | .entryRefersUnusable index tag target =>
      s!"constant pool entry #{index} ({tag.name}) references #{target}, an unusable slot"
  | .entryRefersToKind index tag target found expected =>
      s!"constant pool entry #{index} ({tag.name}) references #{target} which is {found.name}, " ++
        s!"expected {expected.name}"
  | .entryUndefined index => s!"constant pool entry #{index} was never defined"
  | .indexOutOfRange index length =>
      s!"constant pool index #{index} out of range [1, {length})"
  | .unusableSlot index => s!"constant pool index #{index} is an unusable slot"
  | .circularEntry index tag =>
      s!"circular reference through constant pool entry #{index} ({tag.name})"
  | .entryKind expected index found =>
      s!"expected {expected.name} at constant pool index #{index} but found {found.name}"
  | .unsupportedConstant index tag =>
      s!"constant pool entry #{index}: {tag.name} constants are not supported"
  | .unsupportedLoad tag index => s!"loading a {tag.name} constant (#{index}) is not supported"
  | .notLoadable index tag wide =>
      let wanted := if wide then "long/double" else "int/float/String"
      s!"constant pool index #{index} is {tag.name}, not a {wanted} loadable constant"
  | .localOutOfRange index limit =>
      s!"local variable index {index} out of range (max_locals={limit})"
  | .localUnset index => s!"local variable {index} is unset"
  | .localType index found expected =>
      s!"local variable {index} holds {found.name}, expected {expected.name}"
  | .stackOverflow used limit => s!"operand stack overflow (sp={used}, max_stack={limit})"
  | .stackUnderflow used needed => s!"operand stack underflow (sp={used}, need {needed})"
  | .splitValue slot => s!"stack operation would split a category-2 value at slot {slot}"
  | .operandType expected found =>
      s!"expected {expected.name} on operand stack, found {found.name}"
  | .methodDescriptor method descriptor =>
      s!"method {method} has malformed descriptor \"{descriptor}\""
  | .fieldDescriptor owner field descriptor =>
      s!"class {owner}: field {field} has malformed descriptor \"{descriptor}\""
  | .circularLoading name => s!"class circularity detected while loading {name}"
  | .classNotFound name classpath => s!"{name} (searched in {classpath})"
  | .wrongName requested found => s!"{requested} (wrong name: {found})"
  | .duplicateClass name => s!"duplicate class definition: {name}"
  | .ownSuperclass name => s!"class {name} is its own superclass"
  | .interfaceAsSuperclass name super => s!"class {name} has interface {super} as super class"
  | .initialValueType owner field found expected =>
      s!"ConstantValue of {owner}.{field} is {found.name}, field is {expected.name}"
  | .initializationFailed name => s!"could not initialize class {name}"
  | .notInstantiable isInterface name =>
      let what := if isInterface then "interface" else "abstract class"
      s!"cannot instantiate {what} {name}"
  | .noField owner field descriptor => s!"{owner}.{field}:{descriptor}"
  | .fieldStaticness wantStatic owner field =>
      s!"expected {staticWord wantStatic} field {owner}.{field}"
  | .noMethod owner method descriptor => s!"{owner}.{method}{descriptor}"
  | .methodStaticness wantStatic owner method descriptor =>
      s!"expected {staticWord wantStatic} method {owner}.{method}{descriptor}"
  | .notImplemented receiver method descriptor =>
      s!"{receiver} does not implement {method}{descriptor}"
  | .heapExhausted size owner free capacity =>
      s!"Java heap space: cannot allocate {size} bytes for {owner} (free {free} of {capacity})"
  | .codeEnd bci size => s!"bci {bci} falls off the end of code (code_size={size})"
  | .unsupportedOpcode code mnemonic =>
      "opcode 0x" ++ Text.hex 2 code ++ s!" ({mnemonic}) is not supported"
  | .truncatedInstruction mnemonic bci => s!"truncated instruction {mnemonic} at bci {bci}"
  | .branchTarget target size => s!"branch target {target} out of code (code_size={size})"
  | .divisionByZero => "/ by zero"
  | .returnType found method declared =>
      s!"{found.name} return in method {method} returning {declared.name}"
  | .nullFieldRead field => s!"Cannot read field \"{field}\" because object is null"
  | .nullFieldWrite field => s!"Cannot assign field \"{field}\" because object is null"
  | .nullReceiver owner method descriptor =>
      s!"Cannot invoke \"{owner}.{method}{descriptor}\" because receiver is null"
  | .foreignObject found owner field => s!"object of class {found} has no field {owner}.{field}"
  | .tooManyParameters => "too many method parameters"
  | .nativeUnbound method => s!"native method {method} is not bound"
  | .nativeResult method found => s!"native method {method} returned {found.name}"
  | .abstractMethod method => s!"abstract method {method}"
  | .callDepth limit method =>
      s!"call depth exceeds MaxJavaStackDepth={limit} when invoking {method}"
  | .needsReceiver method => s!"instance method {method} needs a receiver as first argument"
  | .argumentType position method expected found =>
      let actual := match found with
        | some type => type.name
        | none => "nothing"
      s!"argument {position} of {method}: expected {expected.name}, found {actual}"
  | .argumentCount method expected found =>
      s!"{method} takes {expected} arguments, got {found}"
  | .noCode method => s!"{method} has no code"
  | .nativeFailed => "native failed"

end Cause

end Jvm
