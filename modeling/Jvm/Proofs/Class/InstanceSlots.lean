/-
# Jvm.Proofs.Class.InstanceSlots — the slots of the fields of an object

Linking numbers the instance fields of a class on from the slots of its superclass, and a
field keeps its number in sixteen bits. A `Lineage` is a chain of classes linked one after
another. While the slots that every class of it declares have such numbers
(`LinkedClass.Narrow`), no two instance fields of an object share a slot, whichever of the
classes declare them. A class that is not narrow puts fields of its own into slots that it
inherits, and no other class does. `Lineage.laidOut` says so, and what holds of every class:
inherited slots first, hidden slots last, static fields numbered from zero.
-/
import Jvm.Proofs.Class.StaticSlots

namespace Jvm

set_option autoImplicit false

namespace Layout

def staticFields (fields : List Field) : List Field := fields.filter (·.isStatic)

theorem keptSlot_of_lt {slot : Nat} (small : slot < 65536) : keptSlot slot = slot :=
  Nat.mod_eq_of_lt small

theorem map_keptSlot_range' {first count : Nat} (small : first + count ≤ 65536) :
    (List.range' first count).map keptSlot = List.range' first count := by
  conv => rhs; rw [← List.map_id (List.range' first count)]
  apply List.map_congr_left
  intro slot member
  have within := List.mem_range'_1.mp member
  exact keptSlot_of_lt (by omega)

/-- The fields with slots from the first one on. -/
def numbered (first : Nat) : List Field → List Field
  | [] => []
  | field :: rest => { field with slot := keptSlot first } :: numbered (first + 1) rest

theorem slots_numbered (first : Nat) (fields : List Field) :
    (numbered first fields).map Field.slot =
      (List.range' first fields.length).map keptSlot := by
  induction fields generalizing first with
  | nil => rfl
  | cons field rest ih =>
      rw [List.length_cons, List.range'_succ]
      exact congrArg (keptSlot first :: ·) (ih (first + 1))

theorem length_numbered (first : Nat) (fields : List Field) :
    (numbered first fields).length = fields.length := by
  have same := congrArg List.length (slots_numbered first fields)
  simpa only [List.length_map, List.length_range'] using same

/-- Which slot a field gets changes nothing of the type of its value. -/
theorem stackTypes_numbered (first : Nat) (fields : List Field) :
    (numbered first fields).map Field.stackType = fields.map Field.stackType := by
  induction fields generalizing first with
  | nil => rfl
  | cons field rest ih => exact congrArg (field.stackType :: ·) (ih (first + 1))

/-- The instance fields get the instance slots one after another, whatever static fields are
between them. -/
theorem instanceFields_assign (instanceSlot staticSlot : Nat) (fields : List Field) :
    instanceFields (assign instanceSlot staticSlot fields) =
      numbered instanceSlot (instanceFields fields) := by
  induction fields generalizing instanceSlot staticSlot with
  | nil => rfl
  | cons first rest ih =>
      cases static : first.flags.isStatic with
      | true => simpa [assign, instanceFields, Field.isStatic, static] using ih _ _
      | false => simpa [assign, instanceFields, Field.isStatic, static, numbered] using ih _ _

theorem staticFields_assign (instanceSlot staticSlot : Nat) (fields : List Field) :
    staticFields (assign instanceSlot staticSlot fields) =
      numbered staticSlot (staticFields fields) := by
  induction fields generalizing instanceSlot staticSlot with
  | nil => rfl
  | cons first rest ih =>
      cases static : first.flags.isStatic with
      | true => simpa [assign, staticFields, Field.isStatic, static, numbered] using ih _ _
      | false => simpa [assign, staticFields, Field.isStatic, static] using ih _ _

/-- A field apart from its slot. -/
def unplaced (field : Field) : Field := { field with slot := 0 }

/-- Linking drops no field, and changes nothing of a field but its slot. -/
theorem unplaced_assign (instanceSlot staticSlot : Nat) (fields : List Field) :
    (assign instanceSlot staticSlot fields).map unplaced = fields.map unplaced := by
  induction fields generalizing instanceSlot staticSlot with
  | nil => rfl
  | cons first rest ih =>
      rw [assign]
      split
      · exact congrArg (unplaced first :: ·) (ih instanceSlot (staticSlot + 1))
      · exact congrArg (unplaced first :: ·) (ih (instanceSlot + 1) staticSlot)

end Layout

namespace LinkedClass

open Layout (instanceFields staticFields keptSlot)

/-- What linking makes of a class, in terms of the linked class alone. -/
structure Extends (super : Option LinkedClass) (c : LinkedClass) : Prop where
  slotTypes : c.slotTypes = slotsOf super ++ (instanceFields c.fields).map Field.stackType ++
    List.replicate c.hiddenSlots .address
  slots : (instanceFields c.fields).map Field.slot =
    (List.range' (slotsOf super).length (instanceFields c.fields).length).map keptSlot
  statics : (staticFields c.fields).map Field.slot = (List.range c.staticCount).map keptSlot
  count : c.staticCount = (staticFields c.fields).length

theorem extends_of_link {declared : Class} {id : ClassId} {super : Option LinkedClass}
    {c : LinkedClass} (linked : link declared id super = .ok c) : Extends super c := by
  unfold link at linked
  split at linked
  · cases linked
  · cases linked
    have instances := Layout.instanceFields_assign (slotsOf super).length 0 declared.fields
    have statics := Layout.staticFields_assign (slotsOf super).length 0 declared.fields
    have counted : declared.fields.countP (·.isStatic) = (staticFields declared.fields).length :=
      List.countP_eq_length_filter
    constructor
    · rw [instances, Layout.stackTypes_numbered]
    · rw [instances, Layout.slots_numbered, Layout.length_numbered]
    · rw [statics, Layout.slots_numbered, counted, List.range_eq_range']
    · rw [statics, Layout.length_numbered, counted]

theorem unplaced_of_link {declared : Class} {id : ClassId} {super : Option LinkedClass}
    {c : LinkedClass} (linked : link declared id super = .ok c) :
    c.fields.map Layout.unplaced = declared.fields.map Layout.unplaced := by
  unfold link at linked
  split at linked
  · cases linked
  · cases linked
    exact Layout.unplaced_assign _ _ _

theorem hiddenSlots_of_link {declared : Class} {id : ClassId} {super : Option LinkedClass}
    {c : LinkedClass} (linked : link declared id super = .ok c) :
    c.hiddenSlots = declared.hiddenSlots := by
  unfold link at linked
  split at linked
  · cases linked
  · cases linked
    rfl

variable {super : Option LinkedClass} {c : LinkedClass}

theorem Extends.firstHiddenSlot_eq (made : Extends super c) :
    c.firstHiddenSlot = (slotsOf super).length + (instanceFields c.fields).length := by
  rw [firstHiddenSlot, made.slotTypes]
  simp only [List.length_append, List.length_map, List.length_replicate]
  omega

theorem firstHiddenSlot_le (c : LinkedClass) : c.firstHiddenSlot ≤ c.slotTypes.length :=
  Nat.sub_le _ _

theorem Extends.inherited (made : Extends super c) : slotsOf super <+: c.slotTypes := by
  rw [made.slotTypes, List.append_assoc]
  exact List.prefix_append _ _

theorem Extends.hidden (made : Extends super c) :
    c.slotTypes.drop c.firstHiddenSlot = List.replicate c.hiddenSlots .address := by
  rw [made.firstHiddenSlot_eq, made.slotTypes]
  exact List.drop_left' (by simp)

/-- The slots that fields of the class are given have numbers that a field can keep. -/
def Narrow (c : LinkedClass) : Prop :=
  instanceFields c.fields = [] ∨ c.firstHiddenSlot ≤ 65536

instance (c : LinkedClass) : Decidable c.Narrow := inferInstanceAs (Decidable (_ ∨ _))

theorem Extends.slots_of_narrow (made : Extends super c) (narrow : c.Narrow) :
    (instanceFields c.fields).map Field.slot =
      List.range' (slotsOf super).length (instanceFields c.fields).length := by
  rw [made.slots]
  rcases narrow with none | few
  · rw [none]
    rfl
  · exact Layout.map_keptSlot_range' (made.firstHiddenSlot_eq ▸ few)

theorem Extends.statics_of_few (made : Extends super c) (few : c.fields.length < 65536) :
    (staticFields c.fields).map Field.slot = List.range c.staticCount := by
  have fewer : (staticFields c.fields).length ≤ c.fields.length := List.length_filter_le _ _
  rw [made.statics, List.range_eq_range']
  exact Layout.map_keptSlot_range' (by rw [made.count]; omega)

/-- Where the field at a position among the instance fields of the class is stored. -/
theorem Extends.slot_getElem (made : Extends super c) {position : Nat}
    (within : position < (instanceFields c.fields).length) :
    ((instanceFields c.fields)[position]).slot = keptSlot ((slotsOf super).length + position) := by
  have same := congrArg (fun slots => slots[position]?) made.slots
  simpa [within] using same

theorem Extends.stackType_getElem (made : Extends super c) {position : Nat}
    (within : position < (instanceFields c.fields).length) :
    c.slotTypes[(slotsOf super).length + position]? =
      some ((instanceFields c.fields)[position]).stackType := by
  rw [made.slotTypes, List.append_assoc, List.getElem?_append_right (Nat.le_add_right _ _),
    Nat.add_sub_cancel_left, List.getElem?_append_left (by simpa using within)]
  simp [within]

/-- A field of a narrow class has its slot between the inherited and the hidden ones. -/
theorem Extends.placed_of_narrow (made : Extends super c) (narrow : c.Narrow) {field : Field}
    (member : field ∈ instanceFields c.fields) :
    (slotsOf super).length ≤ field.slot ∧ field.slot < c.firstHiddenSlot ∧
      c.slotTypes[field.slot]? = some field.stackType := by
  have few : c.firstHiddenSlot ≤ 65536 := by
    rcases narrow with none | few
    · rw [none] at member
      cases member
    · exact few
  obtain ⟨position, within, rfl⟩ := List.getElem_of_mem member
  have hidden := made.firstHiddenSlot_eq
  have slot := made.slot_getElem within
  rw [Layout.keptSlot_of_lt (by omega)] at slot
  rw [slot]
  exact ⟨by omega, by omega, made.stackType_getElem within⟩

/-- The last field of a class that is not narrow gets a slot that the class inherits. -/
theorem Extends.narrow_of_placed (made : Extends super c) (few : c.fields.length < 65536)
    (placed : ∀ field ∈ instanceFields c.fields, (slotsOf super).length ≤ field.slot) :
    c.Narrow := by
  by_contra wide
  simp only [Narrow, not_or, Nat.not_le] at wide
  obtain ⟨some, many⟩ := wide
  have declares := List.length_pos_iff.mpr some
  have fewer : (instanceFields c.fields).length ≤ c.fields.length := List.length_filter_le _ _
  have hidden := made.firstHiddenSlot_eq
  have last : (instanceFields c.fields).length - 1 < (instanceFields c.fields).length := by omega
  have above := placed _ (List.getElem_mem last)
  rw [made.slot_getElem last, keptSlot] at above
  omega

/-- A class and the classes that it extends, the nearest first, each linked to the next one.
No class has more fields than a class file can hold. -/
inductive Lineage : List LinkedClass → Prop
  | empty : Lineage []
  | link {supers : List LinkedClass} {declared : Class} {id : ClassId} {c : LinkedClass} :
      Lineage supers → declared.fields.length < 65536 →
        link declared id supers.head? = .ok c → Lineage (c :: supers)

/-- The instance fields of an object, of whichever class. -/
def visibleFields (lineage : List LinkedClass) : List Field :=
  lineage.flatMap fun c => instanceFields c.fields

/-- How the objects and the record of a class are laid out, as a class says that extends the
given ones. -/
structure LaidOut (declared : Class) (supers : List LinkedClass) (c : LinkedClass) : Prop where
  fields : c.fields.map Layout.unplaced = declared.fields.map Layout.unplaced
  inherited : slotsOf supers.head? <+: c.slotTypes
  own : c.firstHiddenSlot = (slotsOf supers.head?).length + (instanceFields c.fields).length
  hidden : c.slotTypes.drop c.firstHiddenSlot = List.replicate declared.hiddenSlots .address
  statics : (staticFields c.fields).map Field.slot = List.range c.staticCount
  /-- Exactly the narrow classes have every field between the inherited and the hidden slots. -/
  placed : c.Narrow ↔ ∀ field ∈ instanceFields c.fields,
    (slotsOf supers.head?).length ≤ field.slot ∧ field.slot < c.firstHiddenSlot ∧
      c.slotTypes[field.slot]? = some field.stackType
  /-- Fields of one object never share a slot, also when different classes declare them. -/
  apart : (∀ d ∈ c :: supers, d.Narrow) →
    ((visibleFields (c :: supers)).map Field.slot).Nodup ∧
      ∀ field ∈ visibleFields (c :: supers), field.slot < c.slotTypes.length

theorem Lineage.apart {lineage : List LinkedClass} (made : Lineage lineage)
    (narrow : ∀ d ∈ lineage, d.Narrow) :
    ((visibleFields lineage).map Field.slot).Nodup ∧
      ∀ field ∈ visibleFields lineage, field.slot < (slotsOf lineage.head?).length := by
  induction made with
  | empty => exact ⟨.nil, fun field member => by cases member⟩
  | @link supers declared id c _ few linked ih =>
      obtain ⟨distinct, below⟩ := ih fun d member => narrow d (List.mem_cons_of_mem c member)
      have made := extends_of_link linked
      have own := narrow c List.mem_cons_self
      have grown : (slotsOf supers.head?).length ≤ c.slotTypes.length := made.inherited.length_le
      constructor
      · show ((instanceFields c.fields ++ visibleFields supers).map Field.slot).Nodup
        rw [List.map_append, made.slots_of_narrow own, List.nodup_append]
        refine ⟨List.nodup_range', distinct, ?_⟩
        intro slot here other there same
        obtain ⟨field, inherited, rfl⟩ := List.mem_map.mp there
        have lower := (List.mem_range'_1.mp here).1
        have upper := below field inherited
        omega
      · intro field member
        rcases List.mem_append.mp member with here | inherited
        · have within := (made.placed_of_narrow own here).2.1
          exact Nat.lt_of_lt_of_le within c.firstHiddenSlot_le
        · exact Nat.lt_of_lt_of_le (below field inherited) grown

/-- Every class of a chain is laid out as its superclass and its own fields say. -/
theorem Lineage.laidOut {declared : Class} {id : ClassId} {c : LinkedClass}
    {supers : List LinkedClass} (older : Lineage supers) (few : declared.fields.length < 65536)
    (linked : LinkedClass.link declared id supers.head? = .ok c) : LaidOut declared supers c := by
  have made := extends_of_link linked
  have fields := unplaced_of_link linked
  have count := congrArg List.length fields
  rw [List.length_map, List.length_map] at count
  constructor
  · exact fields
  · exact made.inherited
  · exact made.firstHiddenSlot_eq
  · rw [made.hidden, hiddenSlots_of_link linked]
  · exact made.statics_of_few (by omega)
  · constructor
    · intro narrow field member
      exact made.placed_of_narrow narrow member
    · intro placed
      exact made.narrow_of_placed (by omega) fun field member => (placed field member).1
  · exact (older.link few linked).apart

/-- A class with a static field between two instance fields, and a hidden slot. -/
def tally : Class where
  name := "Tally"
  superName := none
  flags := .ofNat 0x21
  major := 52
  minor := 0
  pool := ⟨#[]⟩
  interfaces := []
  fields := [⟨.ofNat 0x00, "open", "Z", 0, 0⟩, ⟨.ofNat 0x08, "tallies", "J", 0, 0⟩,
    ⟨.ofNat 0x00, "mean", "D", 0, 0⟩]
  methods := []
  sourceIndex := 0
  hiddenSlots := 1

/-- A class that declares the same fields again. -/
def recount : Class :=
  { tally with name := "Recount", superName := some "Tally" }

theorem laidOut_recount : ∃ first second, link tally ⟨"Tally", 0⟩ none = .ok first ∧
    link recount ⟨"Recount", 0⟩ (some first) = .ok second ∧
      (∀ d ∈ [second, first], d.Narrow) ∧
        second.slotTypes = [.int, .double, .address, .int, .double, .address] ∧
          LaidOut recount [first] second :=
  have few : tally.fields.length < 65536 := by decide
  have many : recount.fields.length < 65536 := by decide
  ⟨_, _, rfl, rfl, by decide, rfl, Lineage.laidOut (Lineage.empty.link few rfl) many rfl⟩

end LinkedClass

end Jvm
