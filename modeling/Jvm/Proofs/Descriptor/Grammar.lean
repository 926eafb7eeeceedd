/-
# Jvm.Proofs.Descriptor.Grammar — descriptors and their grammar

`FieldType` and `MethodType` are the grammar: the characters that spell a field type, and the text
that spells a method descriptor with its parts. Field types are prefix-free, so the scanner, which
measures the one at the front, always takes off exactly the next part (`fieldLength?_append`,
`fieldType_take`). What it accepts is therefore the grammar, with the same parts in the same order
(`parts_eq_iff`), and everything that is computed from the parts agrees with it
(`scans_grammar`).
-/
import Mathlib.Tactic.TFAE
import Jvm.Proofs.Descriptor

namespace Jvm.Descriptor

set_option autoImplicit false

/-! ## The grammar -/

/-- The letters that are field types of their own. -/
def primitives : List (Char × BasicType) :=
  [('B', .byte), ('C', .char), ('D', .double), ('F', .float), ('I', .int), ('J', .long),
    ('S', .short), ('Z', .boolean)]

/-- The characters spell one field type. -/
inductive FieldType : List Char → BasicType → Prop
  | primitive {c : Char} {type : BasicType} (listed : (c, type) ∈ primitives) : FieldType [c] type
  | object {name : List Char} (named : name ≠ []) (plain : ';' ∉ name) :
      FieldType ('L' :: (name ++ [';'])) .object
  | array {cs : List Char} {type : BasicType} (element : FieldType cs type) :
      FieldType ('[' :: cs) .array

/-- The characters spell the result of a method. -/
inductive ResultType : List Char → BasicType → Prop
  | void : ResultType ['V'] .void
  | field {cs : List Char} {type : BasicType} (field : FieldType cs type) : ResultType cs type

/-- The text is a method descriptor with these parts. -/
structure MethodType (text : String) (params : List Part) (result : Part) : Prop where
  fields : ∀ part ∈ params, FieldType part.text part.type
  gives : ResultType result.text result.type
  spelled : text.toList = '(' :: (params.flatMap Part.text ++ ')' :: result.text)

/-- The slots that a parameter takes by its spelling. -/
def Part.slots (part : Part) : Nat := if part.text = ['J'] ∨ part.text = ['D'] then 2 else 1

/-! ## One field type -/

variable {cs rest name : List Char} {type : BasicType} {length : Nat}

theorem primitive_iff {c : Char} :
    (c, type) ∈ primitives ↔ isPrimitive c = true ∧ BasicType.ofChar c = type := by
  constructor
  · intro listed
    have all : ∀ row ∈ primitives, isPrimitive row.1 = true ∧ BasicType.ofChar row.1 = row.2 := by
      decide
    exact all _ listed
  · rintro ⟨primitive, rfl⟩
    simp only [isPrimitive, Bool.or_eq_true, beq_iff_eq] at primitive
    rcases primitive with ((((((rfl | rfl) | rfl) | rfl) | rfl) | rfl) | rfl) | rfl <;> decide

theorem classNameLength?_eq_some :
    classNameLength? cs = some length ↔
      ∃ name rest, name ≠ [] ∧ ';' ∉ name ∧ cs = name ++ ';' :: rest ∧
        length = name.length + 1 := by
  constructor
  · intro read
    have whole := List.takeWhile_append_dropWhile (p := (· != ';')) (l := cs)
    unfold classNameLength? at read
    split at read
    · rename_i c name d rest taken dropped
      have plain : ∀ x ∈ c :: name, (x != ';') = true := by
        rw [← taken]
        exact List.all_eq_true.mp List.all_takeWhile
      have stop : d = ';' := by
        have head := List.head?_dropWhile_not (· != ';') cs
        rw [dropped] at head
        simpa using head
      refine ⟨c :: name, rest, List.cons_ne_nil c name, fun inside => ?_, ?_,
        (Option.some.inj read).symm⟩
      · cases plain _ inside
      · rw [← whole, taken, dropped, stop]
    · cases read
  · rintro ⟨name, rest, named, plain, rfl, rfl⟩
    obtain ⟨c, others, rfl⟩ := List.exists_cons_of_ne_nil named
    have letters : ∀ x ∈ c :: others, (x != ';') = true := fun x member => by
      simpa using fun semicolon : x = ';' => plain (semicolon ▸ member)
    unfold classNameLength?
    rw [List.takeWhile_append_of_pos letters, List.dropWhile_append_of_pos letters]
    simp

theorem FieldType.exists_cons (spells : FieldType cs type) :
    ∃ c rest, cs = c :: rest ∧ BasicType.ofChar c = type ∧ c ≠ ')' ∧ c ≠ 'V' := by
  cases spells with
  | primitive listed =>
      obtain ⟨primitive, tag⟩ := primitive_iff.mp listed
      refine ⟨_, [], rfl, tag, ?_, ?_⟩ <;> rintro rfl <;> cases primitive
  | object named plain => exact ⟨'L', _, rfl, rfl, by decide, by decide⟩
  | array element => exact ⟨'[', _, rfl, rfl, by decide, by decide⟩

/-- The field type at the front is measured whatever follows it. -/
theorem fieldLength?_append (spells : FieldType cs type) (rest : List Char) :
    fieldLength? (cs ++ rest) = some cs.length := by
  induction spells with
  | @primitive c type listed =>
      obtain ⟨primitive, -⟩ := primitive_iff.mp listed
      have notArray : c ≠ '[' := by rintro rfl; cases primitive
      have notObject : c ≠ 'L' := by rintro rfl; cases primitive
      rw [List.singleton_append, fieldLength?, if_neg notArray, if_neg notObject, if_pos primitive]
      rfl
  | @object name named plain =>
      have measured : classNameLength? (name ++ ';' :: rest) = some (name.length + 1) :=
        classNameLength?_eq_some.mpr ⟨name, rest, named, plain, rfl, rfl⟩
      rw [List.cons_append, List.append_assoc, List.singleton_append, fieldLength?,
        if_neg (by decide), if_pos rfl, measured]
      simp
  | array element ih =>
      rw [List.cons_append, fieldLength?, if_pos rfl, ih]
      rfl

/-- What is measured is a field type. -/
theorem fieldType_take (read : fieldLength? cs = some length) :
    FieldType (cs.take length) (firstPart cs length).type := by
  induction cs generalizing length with
  | nil => cases read
  | cons c cs ih =>
      show FieldType ((c :: cs).take length) (BasicType.ofChar c)
      unfold fieldLength? at read
      split at read
      · rename_i array
        obtain ⟨inner, measured, rfl⟩ := Option.map_eq_some_iff.mp read
        rw [array]
        exact .array (ih measured)
      · split at read
        · rename_i object
          obtain ⟨inner, measured, rfl⟩ := Option.map_eq_some_iff.mp read
          obtain ⟨name, rest, named, plain, rfl, rfl⟩ := classNameLength?_eq_some.mp measured
          have front : ('L' :: (name ++ ';' :: rest)).take (name.length + 1 + 1) =
              'L' :: (name ++ [';']) := by
            rw [List.take_succ_cons, List.take_append, List.take_of_length_le (Nat.le_succ _)]
            simp
          rw [object, front]
          exact .object named plain
        · split at read
          · rename_i primitive
            cases read
            exact .primitive (primitive_iff.mpr ⟨primitive, rfl⟩)
          · cases read

theorem firstPart_append (spells : FieldType cs type) (rest : List Char) :
    firstPart (cs ++ rest) cs.length = ⟨type, cs⟩ := by
  obtain ⟨c, others, rfl, tag, -, -⟩ := spells.exists_cons
  unfold firstPart
  rw [List.take_left]
  simp [tag]

theorem wholePart?_eq_some {part : Part} :
    wholePart? cs = some part ↔ FieldType part.text part.type ∧ part.text = cs := by
  unfold wholePart?
  constructor
  · intro whole
    split at whole
    · rename_i length read
      split at whole
      · rename_i all
        cases whole
        exact ⟨fieldType_take read, List.take_of_length_le (Nat.le_of_eq all.symm)⟩
      · cases whole
    · cases whole
  · rintro ⟨spells, rfl⟩
    have read := fieldLength?_append spells []
    have part' := firstPart_append spells []
    rw [List.append_nil] at read part'
    rw [read]
    simp [part']

theorem resultPart?_eq_some {part : Part} :
    resultPart? cs = some part ↔ ResultType part.text part.type ∧ part.text = cs := by
  unfold resultPart?
  split
  · rename_i void
    subst void
    constructor
    · intro same
      cases same
      exact ⟨.void, rfl⟩
    · rintro ⟨spells, same⟩
      obtain ⟨type, text⟩ := part
      cases same
      cases spells with
      | void => rfl
      | field field =>
          obtain ⟨c, rest, same, -, -, notVoid⟩ := field.exists_cons
          exact absurd (List.cons.inj same).1.symm notVoid
  · rename_i notVoid
    rw [wholePart?_eq_some]
    constructor
    · rintro ⟨field, same⟩
      exact ⟨.field field, same⟩
    · rintro ⟨spells, same⟩
      refine ⟨?_, same⟩
      obtain ⟨type, text⟩ := part
      cases spells with
      | void => exact absurd same.symm notVoid
      | field field => exact field

/-! ## All parts of a method descriptor -/

/-- One step of the scan: a field type at the front is the next parameter. -/
theorem scanParts_append (spells : FieldType cs type) (rest : List Char) :
    scanParts (cs ++ rest) =
      { scanParts rest with params := ⟨type, cs⟩ :: (scanParts rest).params } := by
  obtain ⟨c, others, rfl, -, open', -⟩ := spells.exists_cons
  have read := fieldLength?_append spells rest
  have inside : ¬ ((c :: others) ++ rest).head? = some ')' := by simpa using open'
  rw [scanParts, if_neg inside]
  split
  · rename_i none
    rw [read] at none
    cases none
  · rename_i length read'
    obtain rfl := Option.some.inj (read.symm.trans read')
    rw [firstPart_append spells, List.drop_left]

/-- The scan finds the parts that the characters spell, and no others. -/
theorem scanParts_eq_iff {params : List Part} {result : Part} :
    scanParts cs = ⟨params, some result⟩ ↔
      (∀ part ∈ params, FieldType part.text part.type) ∧ ResultType result.text result.type ∧
        cs = params.flatMap Part.text ++ ')' :: result.text := by
  constructor
  · intro scanned
    induction cs using scanParts.induct generalizing params with
    | case1 cs closing =>
        rw [scanParts, if_pos closing] at scanned
        obtain ⟨rfl, found⟩ := Parts.mk.inj scanned
        obtain ⟨spells, same⟩ := resultPart?_eq_some.mp found
        obtain ⟨rest, rfl⟩ := List.head?_eq_some_iff.mp closing
        exact ⟨List.forall_mem_nil _, spells, by rw [same]; rfl⟩
    | case2 cs inside read =>
        rw [scanParts, if_neg inside] at scanned
        split at scanned
        · cases scanned
        · rename_i read'
          rw [read] at read'
          cases read'
    | case3 cs inside length read ih =>
        rw [scanParts, if_neg inside] at scanned
        split at scanned
        · cases scanned
        · rename_i length' read'
          obtain rfl : length = length' := Option.some.inj (read.symm.trans read')
          obtain ⟨rfl, found⟩ := Parts.mk.inj scanned
          obtain ⟨fields, spells, same⟩ := ih (congrArg (Parts.mk _) found)
          refine ⟨List.forall_mem_cons.mpr ⟨fieldType_take read, fields⟩, spells, ?_⟩
          rw [List.flatMap_cons, List.append_assoc, ← same]
          exact (List.take_append_drop length cs).symm
  · rintro ⟨fields, spells, rfl⟩
    induction params with
    | nil =>
        rw [List.flatMap_nil, List.nil_append, scanParts, if_pos List.head?_cons, List.tail_cons,
          resultPart?_eq_some.mpr ⟨spells, rfl⟩]
    | cons part params ih =>
        obtain ⟨field, fields⟩ := List.forall_mem_cons.mp fields
        rw [List.flatMap_cons, List.append_assoc, scanParts_append field, ih fields]

theorem parts_eq_iff {text : String} {params : List Part} {result : Part} :
    parts text = ⟨params, some result⟩ ↔ MethodType text params result := by
  unfold parts
  split
  · rename_i cs spelled
    rw [scanParts_eq_iff]
    constructor
    · rintro ⟨fields, spells, rfl⟩
      exact ⟨fields, spells, spelled⟩
    · rintro ⟨fields, spells, same⟩
      exact ⟨fields, spells, (List.cons.inj (spelled.symm.trans same)).2⟩
  · rename_i unopened
    constructor
    · rintro ⟨⟩
    · rintro ⟨-, -, same⟩
      exact absurd same (unopened _)

/-! ## What is computed from the parts -/

theorem FieldType.isHeld (spells : FieldType cs type) : type.stackType.isHeld = true := by
  have held := isHeld_of_fieldLength (fieldLength?_append spells [])
  rwa [firstPart_append spells] at held

theorem FieldType.ne_illegal (spells : FieldType cs type) : type ≠ .illegal := by
  rintro rfl
  cases spells.isHeld

theorem ResultType.ne_illegal (spells : ResultType cs type) : type ≠ .illegal := by
  cases spells with
  | void => exact nofun
  | field field => exact field.ne_illegal

/-- Of the field types only `J` and `D` take two slots. -/
theorem FieldType.size (spells : FieldType cs type) : type.size = Part.slots ⟨type, cs⟩ := by
  cases spells with
  | @primitive c type listed =>
      have all : ∀ row ∈ primitives, row.2.size = Part.slots ⟨row.2, [row.1]⟩ := by decide
      exact all _ listed
  | object named plain => rfl
  | array element => rfl

variable {text : String} {params : List Part} {result : Part}

theorem isValidMethod_iff :
    isValidMethod text = true ↔ ∃ params result, MethodType text params result := by
  unfold isValidMethod
  rw [Option.isSome_iff_exists]
  constructor
  · rintro ⟨result, found⟩
    exact ⟨(parts text).params, result, parts_eq_iff.mp (congrArg (Parts.mk _) found)⟩
  · rintro ⟨params, result, spells⟩
    exact ⟨result, by rw [parts_eq_iff.mpr spells]⟩

theorem isSome_paramSlots? : (paramSlots? text).isSome = isValidMethod text := Option.isSome_map

theorem isSome_paramCount? : (paramCount? text).isSome = isValidMethod text := Option.isSome_map

namespace MethodType

variable (spells : MethodType text params result)

include spells

theorem resultType : resultType text = result.type := by
  unfold Descriptor.resultType
  rw [parts_eq_iff.mpr spells]

theorem paramCount? : paramCount? text = some params.length := by
  unfold Descriptor.paramCount?
  rw [parts_eq_iff.mpr spells]
  rfl

theorem paramSlots? : paramSlots? text = some (params.map Part.slots).sum := by
  have sizes : params.map (fun part => part.type.size) = params.map Part.slots :=
    List.map_congr_left fun part member => (spells.fields part member).size
  rw [paramSlots?_of_valid (isValidMethod_iff.mpr ⟨params, result, spells⟩), paramTypes,
    parts_eq_iff.mpr spells, List.map_map, ← sizes]
  rfl

end MethodType

theorem resultType_ne_illegal :
    Descriptor.resultType text ≠ .illegal ↔ ∃ params result, MethodType text params result := by
  constructor
  · intro some
    rw [← isValidMethod_iff, isValidMethod]
    unfold Descriptor.resultType at some
    split at some
    · rename_i found
      rw [found]
      rfl
    · exact absurd rfl some
  · rintro ⟨params, result, spells⟩
    rw [spells.resultType]
    exact spells.gives.ne_illegal

theorem fieldType_of_spells (spells : FieldType text.toList type) : fieldType text = type := by
  have whole : wholePart? text.toList = some ⟨type, text.toList⟩ :=
    wholePart?_eq_some.mpr ⟨spells, rfl⟩
  unfold fieldType
  rw [whole]

theorem fieldType_ne_illegal : fieldType text ≠ .illegal ↔ ∃ type, FieldType text.toList type := by
  constructor
  · intro some
    unfold fieldType at some
    split at some
    · rename_i part whole
      obtain ⟨spells, same⟩ := wholePart?_eq_some.mp whole
      exact ⟨part.type, same ▸ spells⟩
    · exact absurd rfl some
  · rintro ⟨type, spells⟩
    rw [fieldType_of_spells spells]
    exact spells.ne_illegal

end Jvm.Descriptor
