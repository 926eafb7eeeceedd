/-
# Jvm.Builtin — the classes that every machine starts with

Five classes exist from the start: the root class, strings, output streams, the class
that holds the standard output, and a few integer functions. Their methods are native.
Each has a pool with its name, a class entry, and then two texts for each method and each
field.
-/
import Jvm.Class.Build

namespace Jvm.Builtin

set_option autoImplicit false

structure NativeSpec where
  name : String
  descriptor : String
  flags : Nat
  native : Native
  deriving DecidableEq, Repr

structure FieldSpec where
  name : String
  descriptor : String
  flags : Nat
  deriving DecidableEq, Repr

structure Spec where
  name : String
  superName : Option String
  flags : Nat
  methods : List NativeSpec
  fields : List FieldSpec
  hiddenSlots : Nat
  deriving DecidableEq, Repr

namespace Spec

/-- The texts of the methods and fields, in the order of the pool. -/
def texts (spec : Spec) : List String :=
  (spec.methods.flatMap fun method => [method.name, method.descriptor]) ++
    spec.fields.flatMap fun field => [field.name, field.descriptor]

/-- The first slot of the texts of the methods and fields. -/
def firstText : Nat := 3

/-- The pool: the name, the class entry, and the texts. -/
def pool (spec : Spec) : Pool :=
  let slots : List (Option Pool.Entry) :=
    [none, some (.ofText spec.name), some (.classRef 1)] ++
      spec.texts.map fun text => some (.ofText text)
  ⟨slots.toArray⟩

def methodPart (index : Nat) (method : NativeSpec) : MethodPart where
  flags := .ofNat method.flags
  name := firstText + 2 * index
  descriptor := firstText + 2 * index + 1
  maxStack := 0
  maxLocals := 0
  code := #[]
  native := some method.native

def fieldPart (methodCount index : Nat) (field : FieldSpec) : FieldPart where
  flags := .ofNat field.flags
  name := firstText + 2 * (methodCount + index)
  descriptor := firstText + 2 * (methodCount + index) + 1
  constantIndex := 0

def parts (spec : Spec) : ClassParts where
  name := spec.name
  superName := spec.superName
  flags := .ofNat spec.flags
  pool := spec.pool
  fields := spec.fields.mapIdx (fieldPart spec.methods.length)
  methods := spec.methods.mapIdx methodPart
  hiddenSlots := spec.hiddenSlots

end Spec

def publicClass : Nat := 0x0021

def finalClass : Nat := 0x0031

def publicNative : Nat := 0x0101

def publicStaticNative : Nat := 0x0109

def object : Spec where
  name := "java/lang/Object"
  superName := none
  flags := publicClass
  methods := [⟨"<init>", "()V", publicNative, .doNothing⟩]
  fields := []
  hiddenSlots := 0

def string : Spec where
  name := "java/lang/String"
  superName := some "java/lang/Object"
  flags := finalClass
  methods := []
  fields := []
  hiddenSlots := 1

/-- The kinds of the one-argument printing methods, with their parameter types. -/
def printable : List (String × PrintKind) :=
  [("Ljava/lang/String;", .reference), ("Ljava/lang/Object;", .reference), ("I", .int),
    ("J", .long), ("F", .float), ("D", .double), ("Z", .boolean), ("C", .char)]

def printing (name : String) (newline : Bool) : List NativeSpec :=
  printable.map fun (param, kind) =>
    ⟨name, "(" ++ param ++ ")V", publicNative, .print kind newline⟩

def printStream : Spec where
  name := "java/io/PrintStream"
  superName := some "java/lang/Object"
  flags := publicClass
  methods :=
    [⟨"<init>", "()V", publicNative, .doNothing⟩, ⟨"println", "()V", publicNative, .newline⟩] ++
      printing "println" true ++ printing "print" false
  fields := []
  hiddenSlots := 0

/-- The static field that holds the standard output. -/
def outField : FieldSpec := ⟨"out", "Ljava/io/PrintStream;", 0x0019⟩

def system : Spec where
  name := "java/lang/System"
  superName := some "java/lang/Object"
  flags := finalClass
  methods := [⟨"<clinit>", "()V", 0x0108, .openOutput⟩]
  fields := [outField]
  hiddenSlots := 0

def math : Spec where
  name := "java/lang/Math"
  superName := some "java/lang/Object"
  flags := finalClass
  methods :=
    [⟨"abs", "(I)I", publicStaticNative, .abs⟩, ⟨"max", "(II)I", publicStaticNative, .max⟩,
      ⟨"min", "(II)I", publicStaticNative, .min⟩]
  fields := []
  hiddenSlots := 0

/-- The built-in classes, superclasses first. -/
def all : List Spec := [object, string, printStream, system, math]

end Jvm.Builtin
