/-
# Jvm.Descriptor — field and method descriptors

A field descriptor spells one type: any number of `[`, then one of the eight primitive
letters or `L`, a class name of at least one character, and `;`. A method descriptor
spells its parameter types between parentheses and then a result type or `V`.

Scanning works on the characters. `fieldLength?` measures the field type at the front, and
`scanParts` takes parameter types off until the closing parenthesis. A malformed method
descriptor still has the parameters that were read before the fault, and has no result.
-/
import Jvm.BasicType

namespace Jvm.Descriptor

set_option autoImplicit false

def isPrimitive (c : Char) : Bool :=
  c == 'B' || c == 'C' || c == 'D' || c == 'F' || c == 'I' || c == 'J' || c == 'S' || c == 'Z'

/-- The length of a class name that is not empty, with its semicolon. -/
def classNameLength? (cs : List Char) : Option Nat :=
  match cs.takeWhile (· != ';'), cs.dropWhile (· != ';') with
  | c :: name, _ :: _ => some ((c :: name).length + 1)
  | _, _ => none

/-- The length of the field type at the front. -/
def fieldLength? : List Char → Option Nat
  | [] => none
  | c :: cs =>
      if c = '[' then (fieldLength? cs).map (· + 1)
      else if c = 'L' then (classNameLength? cs).map (· + 1)
      else if isPrimitive c then some 1
      else none

theorem classNameLength_le {cs : List Char} {length : Nat}
    (read : classNameLength? cs = some length) : length ≤ cs.length := by
  unfold classNameLength? at read
  split at read
  · rename_i name dropped
    have whole := congrArg List.length (List.takeWhile_append_dropWhile (p := (· != ';')) (l := cs))
    simp only [name, dropped, List.length_append, List.length_cons] at whole
    simp only [Option.some.injEq, List.length_cons] at read
    omega
  · simp at read

theorem fieldLength_pos {cs : List Char} {length : Nat} (read : fieldLength? cs = some length) :
    0 < length := by
  cases cs with
  | nil => simp [fieldLength?] at read
  | cons c cs =>
      unfold fieldLength? at read
      split at read
      · obtain ⟨_, _, rfl⟩ := Option.map_eq_some_iff.mp read
        exact Nat.succ_pos _
      · split at read
        · obtain ⟨_, _, rfl⟩ := Option.map_eq_some_iff.mp read
          exact Nat.succ_pos _
        · split at read
          · cases read
            exact Nat.one_pos
          · simp at read

theorem fieldLength_le {cs : List Char} {length : Nat} (read : fieldLength? cs = some length) :
    length ≤ cs.length := by
  induction cs generalizing length with
  | nil => simp [fieldLength?] at read
  | cons c cs ih =>
      unfold fieldLength? at read
      split at read
      · obtain ⟨_, inner, rfl⟩ := Option.map_eq_some_iff.mp read
        exact Nat.succ_le_succ (ih inner)
      · split at read
        · obtain ⟨_, inner, rfl⟩ := Option.map_eq_some_iff.mp read
          exact Nat.succ_le_succ (classNameLength_le inner)
        · split at read
          · cases read
            exact Nat.succ_le_succ (Nat.zero_le _)
          · simp at read

/-- One type of a descriptor with the characters that spell it. -/
structure Part where
  type : BasicType
  text : List Char
  deriving DecidableEq, Repr

/-- The part that the first characters spell. -/
def firstPart (cs : List Char) (length : Nat) : Part :=
  ⟨(cs.head?.map BasicType.ofChar).getD .illegal, cs.take length⟩

/-- The field type that all characters together spell. -/
def wholePart? (cs : List Char) : Option Part :=
  match fieldLength? cs with
  | some length => if length = cs.length then some (firstPart cs length) else none
  | none => none

/-- The result type, which must use up all characters. -/
def resultPart? (cs : List Char) : Option Part :=
  if cs = ['V'] then some ⟨.void, cs⟩ else wholePart? cs

/-- The parts of a method descriptor; the result is absent when it is malformed. -/
structure Parts where
  params : List Part
  result : Option Part
  deriving DecidableEq, Repr

/-- Scan what follows the opening parenthesis. -/
def scanParts (cs : List Char) : Parts :=
  if cs.head? = some ')' then ⟨[], resultPart? cs.tail⟩
  else
    match _read : fieldLength? cs with
    | none => ⟨[], none⟩
    | some length =>
        let parts := scanParts (cs.drop length)
        { parts with params := firstPart cs length :: parts.params }
termination_by cs.length
decreasing_by
  rw [List.length_drop]
  have read := ‹fieldLength? cs = some length›
  have := fieldLength_pos read
  have := fieldLength_le read
  omega

def isMethod (text : String) : Bool := text.toList.head? == some '('

def parts (text : String) : Parts :=
  match text.toList with
  | '(' :: cs => scanParts cs
  | _ => ⟨[], none⟩

def isValidMethod (text : String) : Bool := (parts text).result.isSome

def paramTypes (text : String) : List BasicType := (parts text).params.map (·.type)

/-- The number of slots of the parameters of a well-formed method descriptor. -/
def paramSlots? (text : String) : Option Nat :=
  let scanned := parts text
  scanned.result.map fun _ => scanned.params.foldl (fun slots part => slots + part.type.size) 0

def paramCount? (text : String) : Option Nat :=
  let scanned := parts text
  scanned.result.map fun _ => scanned.params.length

def resultType (text : String) : BasicType :=
  match (parts text).result with
  | some part => part.type
  | none => .illegal

/-- The type that a field descriptor spells, `illegal` if it is malformed. -/
def fieldType (text : String) : BasicType :=
  match wholePart? text.toList with
  | some part => part.type
  | none => .illegal

def isValidField (text : String) : Bool := fieldType text != .illegal

/-- The position after the field type that starts at a position. -/
def skipField? (text : String) (position : Nat) : Option Nat :=
  (fieldLength? (text.toList.drop position)).map (position + ·)

end Jvm.Descriptor
