/-
# Jvm.BasicType — the type tags of values and descriptors

A descriptor names one of the declared types; an operand stack, a local variable
or a field holds a value of a computational type. `stackType` is the map from the
first to the second: the types narrower than `int` are computed as `int`, and an
array is a reference like any other. Four further tags never come from a
descriptor: `address` marks a hidden slot that holds a text, `conflict` and
`illegal` mark no value at all, and `void` marks the upper half of a two-slot value.
-/
namespace Jvm

set_option autoImplicit false

inductive BasicType where
  | boolean | char | float | double | byte | short | int | long
  | object | array | void | address | conflict | illegal
  deriving DecidableEq, Repr, Inhabited

namespace BasicType

def name : BasicType → String
  | .boolean => "boolean"
  | .char => "char"
  | .float => "float"
  | .double => "double"
  | .byte => "byte"
  | .short => "short"
  | .int => "int"
  | .long => "long"
  | .object => "object"
  | .array => "array"
  | .void => "void"
  | .address => "address"
  | .conflict => "conflict"
  | .illegal => "illegal"

def all : List BasicType :=
  [.boolean, .char, .float, .double, .byte, .short, .int, .long, .object, .array, .void,
    .address, .conflict, .illegal]

def ofName? (name : String) : Option BasicType :=
  all.find? (·.name == name)

theorem ofName?_name (type : BasicType) : ofName? type.name = some type := by
  cases type <;> decide

/-- The number of stack slots or local variables a value of the type takes. -/
def size : BasicType → Nat
  | .long | .double => 2
  | .void => 0
  | _ => 1

/-- The type under which a value of a declared type is computed with. -/
def stackType : BasicType → BasicType
  | .boolean | .byte | .char | .short => .int
  | .array => .object
  | type => type

/-- The type that the first character of a descriptor announces. -/
def ofChar : Char → BasicType
  | 'B' => .byte
  | 'C' => .char
  | 'D' => .double
  | 'F' => .float
  | 'I' => .int
  | 'J' => .long
  | 'S' => .short
  | 'Z' => .boolean
  | 'V' => .void
  | 'L' => .object
  | '[' => .array
  | _ => .illegal

@[simp] theorem stackType_stackType (type : BasicType) :
    type.stackType.stackType = type.stackType := by
  cases type <;> rfl

@[simp] theorem size_stackType (type : BasicType) : type.stackType.size = type.size := by
  cases type <;> rfl

end BasicType

end Jvm
