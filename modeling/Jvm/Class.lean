/-
# Jvm.Class — classes as they are declared

A `Class` is what a class file says, with all texts looked up in its pool. It knows its
superclass only by name. `Jvm.Class.Layout` adds what follows from the superclass.
-/
import Jvm.Method
import Jvm.Pool

namespace Jvm

set_option autoImplicit false

structure Field where
  flags : AccessFlags
  name : String
  descriptor : String
  /-- The pool slot of the initial value of a static field, zero if there is none. -/
  constantIndex : Nat
  /-- The position among the slots of an object, or among the static slots of the class. -/
  slot : Nat
  deriving DecidableEq, Repr

namespace Field

def isStatic (field : Field) : Bool := field.flags.isStatic

/-- The type under which the value of the field is stored. -/
def stackType (field : Field) : BasicType := (Descriptor.fieldType field.descriptor).stackType

end Field

structure Class where
  name : String
  /-- Absent only for the root class. -/
  superName : Option String
  flags : AccessFlags
  major : Nat
  minor : Nat
  pool : Pool
  interfaces : List String
  fields : List Field
  methods : List Method
  /-- The pool slot of the name of the source file, zero if there is none. -/
  sourceIndex : Nat
  /-- The number of slots of an object that no field declares. -/
  hiddenSlots : Nat
  deriving DecidableEq, Repr

namespace Class

def isInterface (c : Class) : Bool := c.flags.isInterface

def isAbstract (c : Class) : Bool := c.flags.isAbstract

def sourceFile? (c : Class) : Option String := c.pool.text? c.sourceIndex

/-- The first method declared with the name and descriptor. -/
def method? (c : Class) (name descriptor : String) : Option Method :=
  c.methods.find? fun method => method.name == name && method.descriptor == descriptor

/-- The first field declared with the name and descriptor. -/
def field? (c : Class) (name descriptor : String) : Option Field :=
  c.fields.find? fun field => field.name == name && field.descriptor == descriptor

def initializer? (c : Class) : Option Method := c.method? "<clinit>" "()V"

end Class

end Jvm
