/-
# Jvm.ClassFile.Reader — reading a class file

A class file is read from front to back, and every part is checked as soon as it has
been read, so the first fault in the file is the one reported. Attributes that have no
meaning here are skipped by their length. `Class.ofBytes` reads a whole file: it must
end where its last attribute ends.
-/
import Jvm.Class
import Jvm.ClassFile.Constant

namespace Jvm.ClassFile

set_option autoImplicit false

open Pool (Tag)

namespace Reader

def magic : Nat := 0xcafebabe

def oldestMajor : Nat := 45

def newestMajor : Nat := 65

structure Version where
  major : Nat
  minor : Nat
  deriving DecidableEq, Repr

def version : Reader Version := do
  let found ← u4
  if found ≠ magic then fail (.badMagic found (← source))
  let minor ← u2
  let major ← u2
  if major < oldestMajor ∨ newestMajor < major then fail (.badVersion major minor (← source))
  return ⟨major, minor⟩

/-! ## References into the pool -/

/-- The text in a slot that must hold one. -/
def textAt (pool : Pool) (what : String) (index : Nat) : Reader String := do
  match pool.text? index with
  | some text => return text
  | none => fail (.badReference what index (← source))

/-- The name of the class in a slot that must hold a class. -/
def classNameAt (pool : Pool) (what : String) (index : Nat) : Reader String := do
  let name? := if index = 0 then none else (pool.entryAt index).bind Pool.Entry.className?
  match name?.bind pool.text? with
  | some name => return name
  | none => fail (.badReference what index (← source))

def rootClass : String := "java/lang/Object"

/-- Only the root class has no superclass. -/
def superName (pool : Pool) (name : String) : Reader (Option String) := do
  let index ← u2
  if index = 0 then
    if name = rootClass then return none
    else fail (.noSuperclass (← source))
  else return some (← classNameAt pool "super_class" index)

/-! ## Attributes -/

structure AttributeHeader where
  name : String
  length : Nat
  deriving DecidableEq, Repr

def attributeHeader (pool : Pool) : Reader AttributeHeader := do
  let index ← u2
  let name ← textAt pool "attribute name" index
  let length ← u4
  return ⟨name, length⟩

/-- Read the counted attributes, each with what the ones before it gave. -/
def attributes {σ : Type} (pool : Pool) (step : σ → AttributeHeader → Reader σ) (start : σ) :
    Reader σ := do
  let count ← u2
  iterate (fun state => do step state (← attributeHeader pool)) count start

def skipAttribute (header : AttributeHeader) : Reader Unit :=
  skip (signedLength header.length)

/-! ## Fields -/

/-- Whether a constant can be the initial value of a field. -/
def initialValueFits (tag : Tag) (descriptor : String) : Bool :=
  match Descriptor.fieldType descriptor with
  | .long => tag == .long
  | .float => tag == .float
  | .double => tag == .double
  | .object => tag == .string && descriptor == "Ljava/lang/String;"
  | .array => false
  | _ => tag == .integer

def initialValue (pool : Pool) (name descriptor : String) (length : Nat) : Reader Nat := do
  if length ≠ 2 then fail (.constantValueLength length (← source))
  let index ← u2
  if ¬ pool.isWithin index then fail (.badInitialValue index (← source))
  let tag := pool.tagAt index
  if ¬ initialValueFits tag descriptor then
    fail (.inconsistentInitialValue tag descriptor name (← source))
  return index

def field (pool : Pool) (owner : String) : Reader Field := do
  let flags := AccessFlags.ofNat (← u2)
  let nameIndex ← u2
  let descriptorIndex ← u2
  let name ← textAt pool "field name" nameIndex
  let descriptor ← textAt pool "field descriptor" descriptorIndex
  if ¬ Descriptor.isValidField descriptor then
    fail (.badFieldDescriptor name owner descriptor)
  let constantIndex ← attributes pool (fun (constantIndex : Nat) header => do
    if header.name = "ConstantValue" ∧ flags.isStatic then
      initialValue pool name descriptor header.length
    else
      skipAttribute header
      return constantIndex) 0
  return ⟨flags, name, descriptor, constantIndex, 0⟩

/-! ## Methods -/

def exceptionRange : Reader ExceptionRange := do
  let start ← u2
  let stop ← u2
  let handler ← u2
  let catchType ← u2
  return ⟨start, stop, handler, catchType⟩

def lineEntry : Reader LineEntry := do
  let start ← u2
  let line ← u2
  return ⟨start, line⟩

def lineTable (length : Nat) : Reader (List LineEntry) := do
  let count ← u2
  if length ≠ 2 + 4 * count then fail (.lineTableLength length (← source))
  many lineEntry count

/-- The line number table of a body; of several, the first that is not empty. -/
def bodyAttribute (lines : List LineEntry) (header : AttributeHeader) :
    Reader (List LineEntry) := do
  if header.name = "LineNumberTable" ∧ lines.isEmpty then lineTable header.length
  else
    skipAttribute header
    return lines

def body (pool : Pool) (length : Nat) : Reader Body := do
  let start := (← get).offset
  let maxStack ← u2
  let maxLocals ← u2
  let codeLength ← u4
  if codeLength = 0 ∨ 0xffff < codeLength then fail (.codeSize codeLength (← source))
  let code ← take codeLength
  let exceptions ← many exceptionRange (← u2)
  let lines ← attributes pool bodyAttribute []
  if (← get).offset - start ≠ length then fail (.codeLength length (← source))
  return ⟨maxStack, maxLocals, code.toArray, exceptions, lines⟩

def methodAttribute (pool : Pool) (name : String) (found : Option Body)
    (header : AttributeHeader) : Reader (Option Body) := do
  if header.name = "Code" then
    if found.isSome then fail (.multipleCode name (← source))
    return some (← body pool header.length)
  else
    skipAttribute header
    return found

/-- A method has a body exactly when it is neither native nor abstract. -/
def requireBody (name descriptor : String) (flags : AccessFlags) (found : Option Body) :
    Reader Body := do
  let bodiless := flags.isNative || flags.isAbstract
  match found with
  | none =>
      if bodiless then return .empty else fail (.absentCode name descriptor (← source))
  | some body =>
      if bodiless then fail (.unexpectedCode name (← source)) else return body

def method (pool : Pool) (owner : String) : Reader Method := do
  let flags := (AccessFlags.ofNat (← u2)).written
  let nameIndex ← u2
  let descriptorIndex ← u2
  let name ← textAt pool "method name" nameIndex
  let descriptor ← textAt pool "method signature" descriptorIndex
  if ¬ Descriptor.isValidMethod descriptor then
    fail (.badMethodDescriptor name owner descriptor)
  let found ← attributes pool (methodAttribute pool name) none
  let body ← requireBody name descriptor flags found
  match Method.ofDescriptor ⟨nameIndex, name⟩ ⟨descriptorIndex, descriptor⟩ flags body with
  | .error cause => fail cause
  | .ok method =>
      if method.hasCode ∧ body.maxLocals < method.argSlots then
        fail (.argumentsExceedLocals name descriptor (← source))
      return method

/-! ## Classes -/

def classAttribute (pool : Pool) (sourceIndex : Nat) (header : AttributeHeader) : Reader Nat := do
  if header.name = "SourceFile" then
    if header.length ≠ 2 then fail (.sourceFileLength header.length (← source))
    let index ← u2
    let _ ← textAt pool "SourceFile" index
    return index
  else
    skipAttribute header
    return sourceIndex

def classFlags : Reader AccessFlags := do
  let bits ← u2
  let flags := AccessFlags.ofNat bits
  if flags.isInterface ∧ ¬ flags.isAbstract then fail (.interfaceNotAbstract bits (← source))
  return flags.written

def interface (pool : Pool) : Reader String := do
  classNameAt pool "interface" (← u2)

def wholeClass : Reader Class := do
  let version ← version
  let pool ← pool
  let flags ← classFlags
  let name ← classNameAt pool "this_class" (← u2)
  let superName ← superName pool name
  let interfaces ← many (interface pool) (← u2)
  let fields ← many (field pool name) (← u2)
  let methods ← many (method pool name) (← u2)
  let sourceIndex ← attributes pool (classAttribute pool) 0
  if ¬ (← get).atEnd then fail (.trailingBytes (← source))
  return {
    name := name
    superName := superName
    flags := flags
    major := version.major
    minor := version.minor
    pool := pool
    interfaces := interfaces
    fields := fields
    methods := methods
    sourceIndex := sourceIndex
    hiddenSlots := 0 }

end Reader

end ClassFile

namespace Class

open ClassFile in
/-- Read a class file. The source says in messages where the bytes come from. -/
def ofBytes (source : String) (bytes : List UInt8) : Except Fault Class :=
  match Reader.wholeClass.run (.start (some source) bytes) with
  | .ok c _ => .ok c
  | .error fault _ => .error fault

end Class

end Jvm
