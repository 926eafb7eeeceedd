/-
# Jvm.Proofs.ClassFile.Written — class files as they are written

A `WrittenClass` has the parts of a class file in the order of the file. Where the file refers to a
text or a class by its slot in the pool, the part holds the slot and the text that it stands for
(`PoolText`). `bytes` writes a part: numbers with the most significant byte first, lists after
their count, attributes after the slot of their name and their length. `Valid` says what a file
must satisfy to be accepted, and `toClass`, `toMethod`, `toField` and `toBody` are what it declares.

`Jvm.Proofs.ClassFile.RoundTrip` shows that reading the bytes gives just that.
-/
import Jvm.ClassFile.Reader
import Mathlib.Algebra.GroupWithZero.Nat

namespace Jvm

set_option autoImplicit false

open BigEndian (encode)

/-- The bytes of a text, one for each character. -/
def Text.toBytes (text : String) : List UInt8 := text.toList.map fun c => c.toNat.toUInt8

/-! ## Constants -/

namespace Pool

namespace Entry

/-- What is written after the tag of a constant. -/
def data : Entry → List UInt8
  | .utf8 text => encode 2 text.length ++ Text.toBytes text
  | .integer v => encode 4 v.toUInt32.toNat
  | .float bits => encode 4 bits.toNat
  | .long v => encode 8 v.toUInt64.toNat
  | .double bits => encode 8 bits.toNat
  | .classRef index | .string index | .methodType index => encode 2 index.toNat
  | .methodHandle parts => encode 1 parts.first ++ encode 2 parts.second
  | .member _ parts | .nameAndType parts | .dynamic parts | .invokeDynamic parts =>
      encode 2 parts.first ++ encode 2 parts.second

def bytes (entry : Entry) : List UInt8 := encode 1 entry.tag.code ++ entry.data

/-- A constant that a file can hold: its numbers have the width that they are written in, and its
text consists of bytes, none of them zero. -/
def Writable : Entry → Prop
  | .utf8 text => text.length < 65536 ∧ ∀ c ∈ text.toList, 0 < c.toNat ∧ c.toNat < 256
  | .classRef index | .string index | .methodType index => 0 ≤ index ∧ index < 65536
  | .methodHandle parts => parts.first < 256 ∧ parts.spill = 0
  | .member _ parts | .nameAndType parts | .dynamic parts | .invokeDynamic parts => parts.spill = 0
  | _ => True

instance : (entry : Entry) → Decidable entry.Writable
  | .utf8 text =>
      -- The characters of the text are checked, not all characters.
      letI := List.decidableBAll (fun c : Char => 0 < c.toNat ∧ c.toNat < 256) text.toList
      inferInstanceAs (Decidable (_ ∧ _))
  | .classRef _ | .string _ | .methodType _ | .methodHandle _ => inferInstanceAs (Decidable (_ ∧ _))
  | .member _ _ | .nameAndType _ | .dynamic _ | .invokeDynamic _ => inferInstanceAs (Decidable (_ = _))
  | .integer _ | .float _ | .long _ | .double _ => .isTrue trivial

/-- The slots that a constant takes. -/
def slots (entry : Entry) : List (Option Entry) :=
  if entry.isWide then [some entry, none] else [some entry]

end Entry

/-- The pool of some constants in a row. -/
def ofConstants (constants : List Entry) : Pool := ⟨(none :: constants.flatMap Entry.slots).toArray⟩

/-- A slot holds a text constant. -/
def HasText (pool : Pool) (text : PoolText) : Prop := pool.text? text.index = some text.text

/-- A slot holds a class constant of the given name. -/
def HasClass (pool : Pool) (name : PoolText) : Prop :=
  name.index ≠ 0 ∧
    ((pool.entryAt name.index).bind Entry.className?).bind pool.text? = some name.text

instance (pool : Pool) (text : PoolText) : Decidable (pool.HasText text) :=
  inferInstanceAs (Decidable (_ = _))

instance (pool : Pool) (name : PoolText) : Decidable (pool.HasClass name) :=
  inferInstanceAs (Decidable (_ ∧ _))

end Pool

namespace ClassFile

/-- Items after their number. -/
def counted {α : Type} (write : α → List UInt8) (items : List α) : List UInt8 :=
  encode 2 items.length ++ items.flatMap write

/-! ## Attributes -/

/-- An attribute: one that means something where it stands, or any other. -/
inductive Attribute (α : Type) where
  | known (name : PoolText) (data : α)
  | other (name : PoolText) (content : List UInt8)
  deriving DecidableEq, Repr

namespace Attribute

variable {α : Type}

def data? : Attribute α → Option α
  | .known _ data => some data
  | .other _ _ => none

def name : Attribute α → PoolText
  | .known name _ => name
  | .other name _ => name

def content (write : α → List UInt8) : Attribute α → List UInt8
  | .known _ data => write data
  | .other _ content => content

def bytes (write : α → List UInt8) (item : Attribute α) : List UInt8 :=
  encode 2 item.name.index ++ encode 4 (item.content write).length ++ item.content write

/-- The attribute has a name from the pool, and means something just if the name is recognised. -/
def Fits (pool : Pool) (Recognised : String → Prop) (Holds : α → Prop) (item : Attribute α) :
    Prop :=
  pool.HasText item.name ∧
    match item with
    | .known name data => Recognised name.text ∧ Holds data
    | .other name _ => ¬ Recognised name.text

instance {pool : Pool} {Recognised : String → Prop} {Holds : α → Prop} [DecidablePred Recognised]
    [DecidablePred Holds] : (item : Attribute α) → Decidable (item.Fits pool Recognised Holds)
  | .known _ _ => inferInstanceAs (Decidable (_ ∧ _ ∧ _))
  | .other _ _ => inferInstanceAs (Decidable (_ ∧ ¬ _))

end Attribute

/-- What the one attribute that means something says. -/
def meaning? {α : Type} (attributes : List (Attribute α)) : Option α :=
  (attributes.filterMap Attribute.data?).head?

/-- Attributes of which at most one means something. -/
structure ValidAttributes {α : Type} (pool : Pool) (Recognised : String → Prop) (Holds : α → Prop)
    (attributes : List (Attribute α)) : Prop where
  count : attributes.length < 65536
  fits : ∀ item ∈ attributes, item.Fits pool Recognised Holds
  single : (attributes.filterMap Attribute.data?).length ≤ 1

instance {α : Type} {pool : Pool} {Recognised : String → Prop} {Holds : α → Prop}
    [DecidablePred Recognised] [DecidablePred Holds] {attributes : List (Attribute α)} :
    Decidable (ValidAttributes pool Recognised Holds attributes) :=
  decidable_of_iff (attributes.length < 65536 ∧
      (∀ item ∈ attributes, item.Fits pool Recognised Holds) ∧
      (attributes.filterMap Attribute.data?).length ≤ 1)
    ⟨fun ⟨count, fits, single⟩ => ⟨count, fits, single⟩,
      fun valid => ⟨valid.count, valid.fits, valid.single⟩⟩

/-! ## Fields -/

structure WrittenField where
  flags : UInt16
  name : PoolText
  descriptor : PoolText
  /-- The known attribute is the slot of the initial value. -/
  attributes : List (Attribute Nat)
  deriving DecidableEq, Repr

namespace WrittenField

def access (field : WrittenField) : AccessFlags := .ofNat field.flags.toNat

def bytes (field : WrittenField) : List UInt8 :=
  encode 2 field.flags.toNat ++ encode 2 field.name.index ++ encode 2 field.descriptor.index ++
    counted (Attribute.bytes (encode 2)) field.attributes

def toField (field : WrittenField) : Field where
  flags := field.access
  name := field.name.text
  descriptor := field.descriptor.text
  constantIndex := (meaning? field.attributes).getD 0
  slot := 0

structure Valid (pool : Pool) (field : WrittenField) : Prop where
  name : pool.HasText field.name
  descriptor : pool.HasText field.descriptor
  spells : Descriptor.isValidField field.descriptor.text = true
  attributes : ValidAttributes pool
    (fun name => name = "ConstantValue" ∧ field.access.isStatic = true)
    (fun (index : Nat) => pool.isWithin index = true ∧
      Reader.initialValueFits (pool.tagAt index) field.descriptor.text = true) field.attributes

instance (pool : Pool) (field : WrittenField) : Decidable (field.Valid pool) :=
  decidable_of_iff (pool.HasText field.name ∧ pool.HasText field.descriptor ∧
      Descriptor.isValidField field.descriptor.text = true ∧ ValidAttributes pool
        (fun name => name = "ConstantValue" ∧ field.access.isStatic = true)
        (fun (index : Nat) => pool.isWithin index = true ∧
          Reader.initialValueFits (pool.tagAt index) field.descriptor.text = true) field.attributes)
    ⟨fun ⟨name, descriptor, spells, attributes⟩ => ⟨name, descriptor, spells, attributes⟩,
      fun valid => ⟨valid.name, valid.descriptor, valid.spells, valid.attributes⟩⟩

end WrittenField

/-! ## Methods -/

def exceptionBytes (range : ExceptionRange) : List UInt8 :=
  encode 2 range.start ++ encode 2 range.stop ++ encode 2 range.handler ++ encode 2 range.catchType

def lineBytes (entry : LineEntry) : List UInt8 := encode 2 entry.start ++ encode 2 entry.line

structure WrittenBody where
  maxStack : UInt16
  maxLocals : UInt16
  code : List UInt8
  exceptions : List ExceptionRange
  /-- The known attribute is the line number table. -/
  attributes : List (Attribute (List LineEntry))
  deriving DecidableEq, Repr

namespace WrittenBody

def bytes (body : WrittenBody) : List UInt8 :=
  encode 2 body.maxStack.toNat ++ encode 2 body.maxLocals.toNat ++ encode 4 body.code.length ++
    body.code ++ counted exceptionBytes body.exceptions ++
    counted (Attribute.bytes (counted lineBytes)) body.attributes

def toBody (body : WrittenBody) : Body where
  maxStack := body.maxStack.toNat
  maxLocals := body.maxLocals.toNat
  code := body.code.toArray
  exceptions := body.exceptions
  lines := (meaning? body.attributes).getD []

structure Valid (pool : Pool) (body : WrittenBody) : Prop where
  code : 0 < body.code.length ∧ body.code.length < 65536
  exceptionCount : body.exceptions.length < 65536
  exceptions : ∀ range ∈ body.exceptions,
    range.start < 65536 ∧ range.stop < 65536 ∧ range.handler < 65536 ∧ range.catchType < 65536
  attributes : ValidAttributes pool (· = "LineNumberTable")
    (fun lines => lines.length < 65536 ∧
      ∀ entry ∈ lines, entry.start < 65536 ∧ entry.line < 65536) body.attributes

instance (pool : Pool) (body : WrittenBody) : Decidable (body.Valid pool) :=
  decidable_of_iff ((0 < body.code.length ∧ body.code.length < 65536) ∧
      body.exceptions.length < 65536 ∧
      (∀ range ∈ body.exceptions, range.start < 65536 ∧ range.stop < 65536 ∧
        range.handler < 65536 ∧ range.catchType < 65536) ∧
      ValidAttributes pool (· = "LineNumberTable") (fun lines => lines.length < 65536 ∧
        ∀ entry ∈ lines, entry.start < 65536 ∧ entry.line < 65536) body.attributes)
    ⟨fun ⟨code, exceptionCount, exceptions, attributes⟩ =>
        ⟨code, exceptionCount, exceptions, attributes⟩,
      fun valid => ⟨valid.code, valid.exceptionCount, valid.exceptions, valid.attributes⟩⟩

end WrittenBody

structure WrittenMethod where
  flags : UInt16
  name : PoolText
  descriptor : PoolText
  /-- The known attribute is the body. -/
  attributes : List (Attribute WrittenBody)
  deriving DecidableEq, Repr

namespace WrittenMethod

def access (method : WrittenMethod) : AccessFlags := (AccessFlags.ofNat method.flags.toNat).written

/-- The slots of the parameters, with one for a receiver. -/
def argumentSlots (method : WrittenMethod) : Nat :=
  (Descriptor.paramSlots? method.descriptor.text).getD 0 + if method.access.isStatic then 0 else 1

def bytes (method : WrittenMethod) : List UInt8 :=
  encode 2 method.flags.toNat ++ encode 2 method.name.index ++ encode 2 method.descriptor.index ++
    counted (Attribute.bytes WrittenBody.bytes) method.attributes

def toMethod (method : WrittenMethod) : Method where
  nameText := method.name
  descriptorText := method.descriptor
  flags := method.access
  body := ((meaning? method.attributes).map WrittenBody.toBody).getD .empty
  argSlots := method.argumentSlots % 65536
  result := Descriptor.resultType method.descriptor.text
  native := none
  owner := none

structure Valid (pool : Pool) (method : WrittenMethod) : Prop where
  name : pool.HasText method.name
  descriptor : pool.HasText method.descriptor
  spells : Descriptor.isValidMethod method.descriptor.text = true
  attributes : ValidAttributes pool (· = "Code") (WrittenBody.Valid pool) method.attributes
  bodied : (meaning? method.attributes).isSome = true ↔
    ¬ (method.access.isNative = true ∨ method.access.isAbstract = true)
  room : ∀ body ∈ meaning? method.attributes, method.argumentSlots ≤ body.maxLocals.toNat

instance (pool : Pool) (method : WrittenMethod) : Decidable (method.Valid pool) :=
  decidable_of_iff (pool.HasText method.name ∧ pool.HasText method.descriptor ∧
      Descriptor.isValidMethod method.descriptor.text = true ∧
      ValidAttributes pool (· = "Code") (WrittenBody.Valid pool) method.attributes ∧
      ((meaning? method.attributes).isSome = true ↔
        ¬ (method.access.isNative = true ∨ method.access.isAbstract = true)) ∧
      ∀ body ∈ meaning? method.attributes, method.argumentSlots ≤ body.maxLocals.toNat)
    ⟨fun ⟨name, descriptor, spells, attributes, bodied, room⟩ =>
        ⟨name, descriptor, spells, attributes, bodied, room⟩,
      fun valid => ⟨valid.name, valid.descriptor, valid.spells, valid.attributes, valid.bodied,
        valid.room⟩⟩

end WrittenMethod

/-! ## Classes -/

structure WrittenClass where
  minor : UInt16
  major : UInt16
  constants : List Pool.Entry
  flags : UInt16
  name : PoolText
  super : Option PoolText
  interfaces : List PoolText
  fields : List WrittenField
  methods : List WrittenMethod
  /-- The known attribute is the name of the source file. -/
  attributes : List (Attribute PoolText)
  deriving DecidableEq, Repr

namespace WrittenClass

def indexBytes (text : PoolText) : List UInt8 := encode 2 text.index

def pool (file : WrittenClass) : Pool := .ofConstants file.constants

def access (file : WrittenClass) : AccessFlags := .ofNat file.flags.toNat

/-- The slot of the superclass, zero if there is none. -/
def superIndex (file : WrittenClass) : Nat := (file.super.map PoolText.index).getD 0

def bytes (file : WrittenClass) : List UInt8 :=
  encode 4 Reader.magic ++ encode 2 file.minor.toNat ++ encode 2 file.major.toNat ++
    encode 2 file.pool.length ++ file.constants.flatMap Pool.Entry.bytes ++
    encode 2 file.flags.toNat ++ encode 2 file.name.index ++ encode 2 file.superIndex ++
    counted indexBytes file.interfaces ++ counted WrittenField.bytes file.fields ++
    counted WrittenMethod.bytes file.methods ++
    counted (Attribute.bytes indexBytes) file.attributes

def toClass (file : WrittenClass) : Class where
  name := file.name.text
  superName := file.super.map PoolText.text
  flags := file.access.written
  major := file.major.toNat
  minor := file.minor.toNat
  pool := file.pool
  interfaces := file.interfaces.map PoolText.text
  fields := file.fields.map WrittenField.toField
  methods := file.methods.map WrittenMethod.toMethod
  sourceIndex := ((meaning? file.attributes).map PoolText.index).getD 0
  hiddenSlots := 0

structure Valid (file : WrittenClass) : Prop where
  size : file.bytes.length < 2 ^ 31
  version : Reader.oldestMajor ≤ file.major.toNat ∧ file.major.toNat ≤ Reader.newestMajor
  constants : ∀ entry ∈ file.constants, entry.Writable
  poolSize : file.pool.length < 65536
  verified : file.pool.verify = .ok ()
  access : file.access.isInterface = true → file.access.isAbstract = true
  name : file.pool.HasClass file.name
  super : ∀ above ∈ file.super, file.pool.HasClass above
  root : file.super = none → file.name.text = Reader.rootClass
  interfaceCount : file.interfaces.length < 65536
  interfaces : ∀ interface ∈ file.interfaces, file.pool.HasClass interface
  fieldCount : file.fields.length < 65536
  fields : ∀ field ∈ file.fields, field.Valid file.pool
  methodCount : file.methods.length < 65536
  methods : ∀ method ∈ file.methods, method.Valid file.pool
  attributes : ValidAttributes file.pool (· = "SourceFile") file.pool.HasText file.attributes

end WrittenClass

/-- A class with a `long` among its constants, an initial value, a method with a handler and a line
number, and attributes without a meaning at every level. -/
def counter : WrittenClass where
  minor := 0
  major := 52
  constants := [.utf8 "Counter", .classRef 1, .utf8 "java/lang/Object", .classRef 3, .long 5000000000,
    .utf8 "LIMIT", .utf8 "J", .utf8 "ConstantValue", .utf8 "add", .utf8 "(II)I", .utf8 "Code",
    .utf8 "LineNumberTable", .utf8 "SourceFile", .utf8 "Counter.java", .utf8 "Synthetic"]
  flags := 0x0021
  name := ⟨2, "Counter"⟩
  super := some ⟨4, "java/lang/Object"⟩
  interfaces := []
  fields := [{
    flags := 0x0019
    name := ⟨7, "LIMIT"⟩
    descriptor := ⟨8, "J"⟩
    attributes := [.other ⟨16, "Synthetic"⟩ [], .known ⟨9, "ConstantValue"⟩ 5] }]
  methods := [{
    flags := 0x0009
    name := ⟨10, "add"⟩
    descriptor := ⟨11, "(II)I"⟩
    attributes := [.known ⟨12, "Code"⟩ {
      maxStack := 2
      maxLocals := 2
      code := [26, 27, 96, 172]
      exceptions := [⟨0, 3, 3, 0⟩]
      attributes := [.other ⟨16, "Synthetic"⟩ [1, 2], .known ⟨13, "LineNumberTable"⟩ [⟨0, 7⟩]] },
      .other ⟨16, "Synthetic"⟩ []] }]
  attributes := [.other ⟨16, "Synthetic"⟩ [0], .known ⟨14, "SourceFile"⟩ ⟨15, "Counter.java"⟩]

end ClassFile

end Jvm
