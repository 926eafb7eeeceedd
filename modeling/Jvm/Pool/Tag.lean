/-
# Jvm.Pool.Tag — the kinds of constant pool slots

A class file marks each constant with a small number. `Tag.ofCode?` reads that
number; a slot that holds no constant has the tag `invalid`. Who looks a constant up may
ask for a kind (`Wanted`), which need not be one that there is.
-/
namespace Jvm.Pool

set_option autoImplicit false

inductive Tag where
  | invalid | utf8 | integer | float | long | double | classRef | string | field | method
  | interfaceMethod | nameAndType | methodHandle | methodType | dynamic | invokeDynamic
  deriving DecidableEq, Repr, Inhabited

namespace Tag

def code : Tag → Nat
  | .invalid => 0
  | .utf8 => 1
  | .integer => 3
  | .float => 4
  | .long => 5
  | .double => 6
  | .classRef => 7
  | .string => 8
  | .field => 9
  | .method => 10
  | .interfaceMethod => 11
  | .nameAndType => 12
  | .methodHandle => 15
  | .methodType => 16
  | .dynamic => 17
  | .invokeDynamic => 18

def name : Tag → String
  | .invalid => "Invalid"
  | .utf8 => "Utf8"
  | .integer => "Integer"
  | .float => "Float"
  | .long => "Long"
  | .double => "Double"
  | .classRef => "Class"
  | .string => "String"
  | .field => "Fieldref"
  | .method => "Methodref"
  | .interfaceMethod => "InterfaceMethodref"
  | .nameAndType => "NameAndType"
  | .methodHandle => "MethodHandle"
  | .methodType => "MethodType"
  | .dynamic => "Dynamic"
  | .invokeDynamic => "InvokeDynamic"

def all : List Tag :=
  [.invalid, .utf8, .integer, .float, .long, .double, .classRef, .string, .field, .method,
    .interfaceMethod, .nameAndType, .methodHandle, .methodType, .dynamic, .invokeDynamic]

def ofCode? (code : Int) : Option Tag :=
  all.find? fun tag => (tag.code : Int) = code

def ofName? (name : String) : Option Tag :=
  all.find? fun tag => tag.name == name

/-- What a number is called that is the tag of nothing. -/
def unknownName : String := "Unknown"

/-- The name of any tag number, known or not. -/
def nameOfCode (code : Int) : String :=
  match ofCode? code with
  | some tag => tag.name
  | none => unknownName

def isMember : Tag → Bool
  | .field | .method | .interfaceMethod => true
  | _ => false

/-- The constants that take two slots. -/
def isWide : Tag → Bool
  | .long | .double => true
  | _ => false

/-- The constants that the one-slot load instructions accept. -/
def isLoadable : Tag → Bool
  | .integer | .float | .string => true
  | _ => false

theorem ofCode?_code (tag : Tag) : ofCode? tag.code = some tag := by
  cases tag <;> decide

end Tag

/-- What kind of constant is asked for in a slot. -/
inductive Wanted where
  | any
  | tagged (tag : Tag)
  /-- A kind that no constant has. -/
  | unknown
  deriving DecidableEq, Repr

namespace Wanted

def accepts : Wanted → Tag → Bool
  | .any, _ => true
  | .tagged tag, found => tag == found
  | .unknown, _ => false

/-- The name that a message gives to the kind. -/
def name : Wanted → String
  | .any => Tag.invalid.name
  | .tagged tag => tag.name
  | .unknown => Tag.unknownName

/-- The kind of a name. A slot without a constant is no kind to ask for, so its name stands
for any. -/
def ofName (name : String) : Wanted :=
  match Tag.ofName? name with
  | some .invalid => .any
  | some tag => .tagged tag
  | none => .unknown

end Wanted

end Jvm.Pool
