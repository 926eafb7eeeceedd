/-
# Jvm.Proofs.Frame.Variables — slots of variables as variables

The slots of a frame hold variables, one or two slots each. `Locals.toVariables` reads the slots as
a map from the slot where a variable starts to its whole value, and on this map a put is
`Variables.assign`: the value is there, and whatever shared a slot with it is gone
(`Paired.toVariables_store`). The invariant is `Paired`: a two-slot value and its upper half always
stand together. `Frame.variables_map_slots_to_values` says what this means for a frame whose
variables were put one after another, where a put can overlap two earlier values at once.
-/
import Jvm.Proofs.Frame.Activation

namespace Jvm

set_option autoImplicit false

/-! ## Values and their sizes -/

namespace Value

variable {v : Value}

theorem isWide_iff_size : v.isWide = true ↔ v.size = 2 := by
  cases v with
  | mark tag => cases tag <;> decide
  | _ => simp [isWide, size, type, BasicType.size]

theorem size_of_narrow (valued : v ≠ .void) (narrow : ¬ v.isWide = true) : v.size = 1 := by
  cases v with
  | mark tag => cases tag <;> first | exact absurd rfl valued | rfl
  | _ => first | rfl | exact absurd rfl narrow

theorem size_of_wide (wide : v.isWide = true) : v.size = 2 := isWide_iff_size.mp wide

theorem type_ne_void (valued : v ≠ .void) : v.type ≠ .void := by
  cases v with
  | mark tag => cases tag <;> first | exact absurd rfl valued | exact nofun
  | _ => exact nofun

end Value

/-! ## The map -/

/-- Whole values by the slot where each starts. -/
abbrev Variables := Nat → Option Value

/-- The slots from one on are all among the first `limit`. -/
def SlotsWithin (limit : Nat) (slot : Int) (size : Nat) : Prop := 0 ≤ slot ∧ slot + size ≤ limit

instance (limit : Nat) (slot : Int) (size : Nat) : Decidable (SlotsWithin limit slot size) :=
  inferInstanceAs (Decidable (_ ∧ _))

/-- The slots of two variables, given by first slot and size, have none in common. -/
def SlotsApart (slot : Int) (size : Nat) (other : Int) (size' : Nat) : Prop :=
  other + size' ≤ slot ∨ slot + size ≤ other

instance (slot : Int) (size : Nat) (other : Int) (size' : Nat) :
    Decidable (SlotsApart slot size other size') :=
  inferInstanceAs (Decidable (_ ∨ _))

namespace Variables

def empty : Variables := fun _ => none

/-- Give a variable a value. What shares a slot with it is lost; the value that stands for no value
leaves nothing. -/
def assign (held : Variables) (slot : Nat) (v : Value) : Variables := fun other =>
  if other = slot then if v = .unset then none else some v
  else (held other).filter fun w => SlotsApart slot v.size other w.size

/-- Give variables values one after another, those whose slots exist. -/
def afterPuts (held : Variables) (limit : Nat) : List (Int × Value) → Variables
  | [] => held
  | (slot, v) :: rest =>
      if SlotsWithin limit slot v.size then (held.assign slot.toNat v).afterPuts limit rest
      else held.afterPuts limit rest

end Variables

namespace Locals

/-- The values that start in the slots. -/
def toVariables (locals : Locals) : Variables := fun slot =>
  if locals.slotValue slot = .unset ∨ locals.slotValue slot = .void then none
  else some (locals.slotValue slot)

/-- A two-slot value is followed by its upper half, and nothing else is. -/
structure Paired (locals : Locals) : Prop where
  upper : ∀ slot, (locals.slotValue slot).isWide = true → locals.slotValue (slot + 1) = .void
  lower : ∀ slot, locals.slotValue slot = .void →
    ∃ below, slot = below + 1 ∧ (locals.slotValue below).isWide = true

variable {locals : Locals} {slot other : Nat} {v w : Value} {type : BasicType}

theorem slotValue_of_size_le (outside : locals.size ≤ slot) : locals.slotValue slot = .unset := by
  unfold slotValue
  rw [Array.getD_eq_getD_getElem?, Array.getElem?_eq_none outside]
  rfl

theorem slotValue_unset (count : Nat) : (unset count).slotValue slot = .unset := by
  unfold slotValue unset
  rw [Array.getD_eq_getD_getElem?, Array.getElem?_replicate]
  split <;> rfl

theorem slotValue_setIfInBounds (inside : slot < locals.size) :
    slotValue (locals.setIfInBounds slot v) other =
      if other = slot then v else locals.slotValue other := by
  unfold slotValue
  simp only [Array.getD_eq_getD_getElem?, Array.getElem?_setIfInBounds, inside, eq_comm (a := slot)]
  split <;> rfl

/-- Outside the slots there is nothing to unset. -/
theorem slotValue_setIfInBounds_unset :
    slotValue (locals.setIfInBounds slot .unset) other =
      if other = slot then .unset else locals.slotValue other := by
  by_cases inside : slot < locals.size
  · exact slotValue_setIfInBounds inside
  · rw [Array.setIfInBounds_eq_of_size_le (Nat.not_lt.mp inside)]
    split
    · rename_i same
      rw [same, slotValue_of_size_le (Nat.not_lt.mp inside)]
    · rfl

@[simp] theorem size_vacate : (locals.vacate slot).size = locals.size := by
  unfold vacate
  split
  · exact Array.size_setIfInBounds
  · split
    · exact Array.size_setIfInBounds
    · rfl

@[simp] theorem size_store : (locals.store slot v).size = locals.size := by
  unfold store
  repeat' split
  all_goals simp only [Array.size_setIfInBounds, size_vacate]

/-- The other slot of a pair is the one above a two-slot value or below an upper half. -/
theorem slotValue_vacate : (locals.vacate slot).slotValue other =
    if (other = slot + 1 ∧ (locals.slotValue slot).isWide = true) ∨
        (slot = other + 1 ∧ locals.slotValue slot = .void ∧ (locals.slotValue other).isWide = true)
      then .unset
    else locals.slotValue other := by
  unfold vacate
  by_cases wide : (locals.slotValue slot).isWide = true
  · have whole : locals.slotValue slot ≠ .void := fun void => by rw [void] at wide; cases wide
    simp only [wide, if_true, slotValue_setIfInBounds_unset, whole, and_true, and_false, false_and,
      or_false]
  · by_cases half : locals.slotValue slot = .void ∧ 0 < slot ∧
        (locals.slotValue (slot - 1)).isWide = true
    · rw [if_neg wide, if_pos half, slotValue_setIfInBounds_unset]
      obtain ⟨void, above, below⟩ := half
      obtain ⟨below', rfl⟩ : ∃ below, slot = below + 1 := ⟨slot - 1, by omega⟩
      by_cases same : other = below'
      · subst same
        simp_all
      · have : ¬ below' + 1 = other + 1 := by omega
        simp_all
    · rw [if_neg wide, if_neg half, if_neg]
      rintro (⟨-, wide'⟩ | ⟨rfl, void, below⟩)
      · exact wide wide'
      · exact half ⟨void, Nat.succ_pos other, below⟩

namespace Paired

theorem succ_eq_void (paired : locals.Paired) (slot : Nat) :
    locals.slotValue (slot + 1) = .void ↔ (locals.slotValue slot).isWide = true := by
  refine ⟨fun void => ?_, paired.upper slot⟩
  obtain ⟨below, same, wide⟩ := paired.lower _ void
  cases same
  exact wide

theorem zero_ne_void (paired : locals.Paired) : locals.slotValue 0 ≠ .void := by
  intro void
  obtain ⟨below, impossible, -⟩ := paired.lower 0 void
  cases impossible

theorem of_succ_eq_void (bottom : locals.slotValue 0 ≠ .void)
    (above : ∀ slot, locals.slotValue (slot + 1) = .void ↔ (locals.slotValue slot).isWide = true) :
    locals.Paired where
  upper slot := (above slot).mpr
  lower
    | 0, void => absurd void bottom
    | below + 1, void => ⟨below, rfl, (above below).mp void⟩

theorem unset (count : Nat) : (Locals.unset count).Paired :=
  of_succ_eq_void (by rw [slotValue_unset]; exact nofun) fun slot => by
    rw [slotValue_unset, slotValue_unset]
    exact ⟨nofun, nofun⟩

/-- Before a put of one slot, the two-slot value below it and the upper half above it go. -/
theorem slotValue_vacate (paired : locals.Paired) :
    (locals.vacate slot).slotValue other =
      if (slot = other + 1 ∧ (locals.slotValue other).isWide = true) ∨
          (other = slot + 1 ∧ locals.slotValue other = .void) then .unset
      else locals.slotValue other := by
  rw [Locals.slotValue_vacate]
  congr 1
  have above := paired.succ_eq_void slot
  have below := paired.succ_eq_void other
  grind

/-- Before a put of two slots, the same holds of the slots around both. -/
theorem slotValue_vacate_vacate (paired : locals.Paired) (low : other ≠ slot)
    (high : other ≠ slot + 1) :
    ((locals.vacate slot).vacate (slot + 1)).slotValue other =
      if (slot = other + 1 ∧ (locals.slotValue other).isWide = true) ∨
          (other = slot + 2 ∧ locals.slotValue other = .void) then .unset
      else locals.slotValue other := by
  have here := @slotValue_vacate _ slot other paired
  have above := @slotValue_vacate _ slot (slot + 1) paired
  have unset : Value.isWide .unset = false := rfl
  have void : Value.isWide .void = false := rfl
  rw [Locals.slotValue_vacate, here, above]
  have next := paired.succ_eq_void (slot + 1)
  grind

/-- What each slot holds after a put: the value, its upper half, nothing in the other slots of the
pairs that the value breaks, and everywhere else what was there. -/
theorem slotValue_store (paired : locals.Paired) (valued : v ≠ .void)
    (fits : slot + v.size ≤ locals.size) :
    (locals.store slot v).slotValue other =
      if other = slot then v
      else if other = slot + 1 ∧ v.size = 2 then .void
      else if (slot = other + 1 ∧ (locals.slotValue other).isWide = true) ∨
          (other = slot + v.size ∧ locals.slotValue other = .void) then .unset
      else locals.slotValue other := by
  unfold store
  by_cases wide : v.isWide = true
  · have two := Value.size_of_wide wide
    rw [two] at fits
    rw [if_pos two, slotValue_setIfInBounds (by simp; omega),
      slotValue_setIfInBounds (by simp; omega), two]
    by_cases low : other = slot
    · rw [if_pos low, if_pos low, if_neg (by omega)]
    · by_cases high : other = slot + 1
      · rw [if_pos high, if_neg low, if_pos ⟨high, rfl⟩]
      · rw [if_neg high, if_neg low, if_neg low, if_neg fun both => high both.1,
          paired.slotValue_vacate_vacate low high]
  · have one := Value.size_of_narrow valued wide
    rw [one] at fits
    rw [if_neg (by omega), if_pos one, slotValue_setIfInBounds (by simp; omega), one,
      paired.slotValue_vacate, if_neg (c := other = slot + 1 ∧ 1 = 2) (by omega)]

/-- A put keeps the pairs together. -/
theorem store (paired : locals.Paired) (valued : v ≠ .void) (fits : slot + v.size ≤ locals.size) :
    (locals.store slot v).Paired := by
  have unset : Value.isWide .unset = false := rfl
  have void : Value.isWide .void = false := rfl
  have other : Value.unset ≠ .void := nofun
  have wide : v.isWide = true ↔ v.size = 2 := Value.isWide_iff_size
  have one : ¬ v.isWide = true → v.size = 1 := Value.size_of_narrow valued
  refine of_succ_eq_void ?_ fun below => ?_
  · have bottom := paired.zero_ne_void
    rw [paired.slotValue_store valued fits]
    grind
  · have after := paired.succ_eq_void below
    rw [paired.slotValue_store valued fits, paired.slotValue_store valued fits]
    grind

/-- The values that start in the slots are, after a put, those of the map with the value
assigned. -/
theorem toVariables_store (paired : locals.Paired) (valued : v ≠ .void)
    (fits : slot + v.size ≤ locals.size) :
    (locals.store slot v).toVariables = locals.toVariables.assign slot v := by
  have wide : v.isWide = true ↔ v.size = 2 := Value.isWide_iff_size
  have one : ¬ v.isWide = true → v.size = 1 := Value.size_of_narrow valued
  funext other
  have wide' : (locals.slotValue other).isWide = true ↔ (locals.slotValue other).size = 2 :=
    Value.isWide_iff_size
  have one' := fun valued => Value.size_of_narrow (v := locals.slotValue other) valued
  have below := paired.succ_eq_void other
  have above := paired.succ_eq_void slot
  unfold toVariables Variables.assign
  rw [paired.slotValue_store valued fits]
  unfold SlotsApart
  grind

end Paired

theorem checkRange_eq (slot : Int) (size : Nat) : locals.checkRange slot size =
    if SlotsWithin locals.size slot size then .ok ()
    else .error (Cause.halt (.localOutOfRange slot locals.size)) := by
  unfold checkRange
  by_cases fits : SlotsWithin locals.size slot size
  · rw [if_pos fits, if_neg (by unfold SlotsWithin at fits; omega)]
  · rw [if_neg fits, if_pos (by unfold SlotsWithin at fits; omega)]

theorem read_of_not_within {slot : Int} (outside : ¬ SlotsWithin locals.size slot type.size) :
    locals.read slot type = .error (Cause.halt (.localOutOfRange slot locals.size)) := by
  unfold read
  rw [checkRange_eq, if_neg outside]
  rfl

/-- Reading where all slots are there. -/
theorem read_of_fits {slot : Int} (valued : type ≠ .void)
    (fits : SlotsWithin locals.size slot type.size) :
    locals.read slot type =
      if locals.slotValue slot.toNat = .unset then
        .error (Cause.halt (.localUnset slot.toNat))
      else if (locals.slotValue slot.toNat).type ≠ type then
        .error (Cause.halt (.localType slot.toNat (locals.slotValue slot.toNat).type type))
      else .ok (locals.slotValue slot.toNat) := by
  have sized := BasicType.size_ne_zero valued
  have inside : slot.toNat < locals.size := by unfold SlotsWithin at fits; omega
  have there : locals[slot.toNat]? = some (locals.slotValue slot.toNat) := by
    unfold slotValue
    rw [Array.getD_eq_getD_getElem?, Array.getElem?_eq_getElem inside]
    rfl
  unfold read
  rw [checkRange_eq, if_pos fits, there]
  simp only [Value.isUnset, beq_iff_eq]
  split
  · rfl
  · split <;> rfl

/-- A value is read where it starts, under its own type. -/
theorem read_eq_ok {slot : Int} (valued : type ≠ .void) :
    locals.read slot type = .ok v ↔
      SlotsWithin locals.size slot type.size ∧ locals.toVariables slot.toNat = some v ∧
        v.type = type := by
  by_cases fits : SlotsWithin locals.size slot type.size
  · have whole : v.type = type → v ≠ .void := fun same void => valued (by rw [← same, void]; rfl)
    rw [read_of_fits valued fits]
    unfold toVariables
    grind
  · rw [read_of_not_within fits]
    exact iff_of_false nofun fun reads => fits reads.1

theorem refused_read {slot : Int} (valued : type ≠ .void)
    (fits : SlotsWithin locals.size slot type.size)
    (absent : ∀ v, locals.read slot type ≠ .ok v) :
    ∃ cause : Cause, locals.read slot type = .error cause.halt ∧ cause.kind = .type := by
  rw [read_of_fits valued fits] at absent ⊢
  split
  · exact ⟨_, rfl, rfl⟩
  · split
    · exact ⟨_, rfl, rfl⟩
    · rename_i set typed
      exact absurd (by rw [if_neg set, if_neg typed]) (absent _)

end Locals

namespace FrameM

theorem readLocal_eq (slot : Int) (type : BasicType) (frame : Frame) :
    readLocal slot type frame = match frame.locals.read slot type with
      | .ok v => .ok v frame
      | .error halt => .error halt frame := by
  show (match frame.locals.read slot type with
    | .ok v => pure v
    | .error halt => throw halt : FrameM Value) frame = _
  cases frame.locals.read slot type <;> rfl

theorem readLocal_eq_ok {slot : Int} {type : BasicType} {frame : Frame} {v : Value} :
    readLocal slot type frame = .ok v frame ↔ frame.locals.read slot type = .ok v := by
  rw [readLocal_eq]
  cases frame.locals.read slot type <;> simp

theorem writeLocal_eq (slot : Int) (v : Value) (frame : Frame) :
    writeLocal slot v frame =
      if SlotsWithin frame.locals.size slot v.size then
        .ok () { frame with locals := frame.locals.store slot.toNat v }
      else .error (Cause.halt (.localOutOfRange slot frame.locals.size)) frame := by
  unfold writeLocal
  rw [bind_get, Locals.checkRange_eq]
  by_cases fits : SlotsWithin frame.locals.size slot v.size
  · rw [if_pos fits, if_pos fits]
    rfl
  · rw [if_neg fits, if_neg fits]
    rfl

end FrameM

/-! ## Frames -/

namespace Frame

/-- A frame of whose variables none is assigned. -/
def Fresh (frame : Frame) : Prop := frame.locals = .unset frame.method.body.maxLocals

/-- Put values into variables one after another. A put that fails does not keep the later ones from
being made. -/
def afterPuts (frame : Frame) : List (Int × Value) → Frame
  | [] => frame
  | (slot, v) :: rest =>
      match FrameM.writeLocal slot v frame with
      | .ok _ later => later.afterPuts rest
      | .error _ later => later.afterPuts rest

/-- What a put of a value in a slot makes of a frame. -/
structure Assigns (frame : Frame) (slot : Int) (v : Value) (later : Frame) : Prop where
  /-- Only the variables change, -/
  only : later = { frame with locals := later.locals }
  /-- the value can be read where it was put, -/
  reads : v ≠ .unset → FrameM.readLocal slot v.type later = .ok v later
  /-- what shares no slot with it can be read as before, -/
  keeps : ∀ other type w, type ≠ .void → SlotsApart slot v.size other type.size →
    FrameM.readLocal other type frame = .ok w frame →
      FrameM.readLocal other type later = .ok w later
  /-- and what shares a slot with it cannot be read. -/
  drops : ∀ other type, type ≠ .void → SlotsWithin frame.method.body.maxLocals other type.size →
    ¬ SlotsApart slot v.size other type.size → ¬ (other = slot ∧ type = v.type) →
      ∃ cause : Cause, FrameM.readLocal other type later = .error cause.halt later ∧
        cause.kind = .type

/-- The slots of the frame hold the variables of the map. -/
structure HasVariables (frame : Frame) (held : Variables) : Prop where
  paired : frame.locals.Paired
  size : frame.locals.size = frame.method.body.maxLocals
  held : frame.locals.toVariables = held

variable {frame later : Frame} {held : Variables} {slot : Int} {v : Value}

theorem Fresh.holds (fresh : frame.Fresh) : frame.HasVariables .empty := by
  unfold Fresh at fresh
  refine ⟨by rw [fresh]; exact .unset _, by rw [fresh]; exact Array.size_replicate, ?_⟩
  funext slot
  rw [fresh]
  unfold Locals.toVariables
  rw [Locals.slotValue_unset]
  rfl

namespace HasVariables

/-- A put whose slots exist assigns on the map. -/
theorem put (holds : frame.HasVariables held) (valued : v ≠ .void)
    (within : SlotsWithin frame.method.body.maxLocals slot v.size) :
    ∃ locals, FrameM.writeLocal slot v frame = .ok () { frame with locals := locals } ∧
      HasVariables { frame with locals := locals } (held.assign slot.toNat v) := by
  rw [← holds.size] at within
  have fits : slot.toNat + v.size ≤ frame.locals.size := by unfold SlotsWithin at within; omega
  refine ⟨frame.locals.store slot.toNat v, ?_, ?_, ?_, ?_⟩
  · rw [FrameM.writeLocal_eq, if_pos within]
  · exact holds.paired.store valued fits
  · exact Locals.size_store.trans holds.size
  · exact (holds.paired.toVariables_store valued fits).trans (by rw [holds.held])

/-- Any other put is refused and changes nothing. -/
theorem refused_put (holds : frame.HasVariables held)
    (outside : ¬ SlotsWithin frame.method.body.maxLocals slot v.size) :
    FrameM.writeLocal slot v frame =
      .error (Cause.halt (.localOutOfRange slot frame.method.body.maxLocals)) frame := by
  rw [← holds.size] at outside ⊢
  rw [FrameM.writeLocal_eq, if_neg outside]

/-- Puts one after another. -/
theorem afterPuts {puts : List (Int × Value)} (valued : ∀ put ∈ puts, put.2 ≠ .void)
    (holds : frame.HasVariables held) :
    (frame.afterPuts puts).HasVariables (held.afterPuts frame.method.body.maxLocals puts) ∧
      (frame.afterPuts puts).method = frame.method := by
  induction puts generalizing frame held with
  | nil => exact ⟨holds, rfl⟩
  | cons put rest ih =>
      obtain ⟨slot, v⟩ := put
      have valued' := fun put member => valued put (List.mem_cons_of_mem _ member)
      by_cases within : SlotsWithin frame.method.body.maxLocals slot v.size
      · obtain ⟨locals, run, holds'⟩ := holds.put (valued _ List.mem_cons_self) within
        simp only [Frame.afterPuts, Variables.afterPuts, run, if_pos within]
        exact ih valued' holds'
      · simp only [Frame.afterPuts, Variables.afterPuts, holds.refused_put within, if_neg within]
        exact ih valued' holds

/-- Reading is looking up in the map. -/
theorem readLocal_eq_ok (holds : frame.HasVariables held) {type : BasicType}
    (valued : type ≠ .void) :
    FrameM.readLocal slot type frame = .ok v frame ↔
      SlotsWithin frame.method.body.maxLocals slot type.size ∧
        held slot.toNat = some v ∧ v.type = type := by
  rw [FrameM.readLocal_eq_ok, Locals.read_eq_ok valued, holds.size, holds.held]

theorem refused_readLocal (holds : frame.HasVariables held) {type : BasicType}
    (valued : type ≠ .void)
    (within : SlotsWithin frame.method.body.maxLocals slot type.size)
    (absent : ∀ v, held slot.toNat = some v → v.type ≠ type) :
    ∃ cause : Cause, FrameM.readLocal slot type frame = .error cause.halt frame ∧
      cause.kind = .type := by
  have none : ∀ v, frame.locals.read slot type ≠ .ok v := by
    intro v reads
    obtain ⟨-, there, same⟩ := (Locals.read_eq_ok valued).mp reads
    rw [holds.held] at there
    exact absent v there same
  rw [← holds.size] at within
  obtain ⟨cause, refused, kind⟩ := Locals.refused_read valued within none
  exact ⟨cause, by rw [FrameM.readLocal_eq, refused], kind⟩

/-- What a put on the map means for the readings before and after it. -/
theorem assigns {locals : Locals} (holds : frame.HasVariables held) (valued : v ≠ .void)
    (within : SlotsWithin frame.method.body.maxLocals slot v.size)
    (holds' : HasVariables { frame with locals := locals } (held.assign slot.toNat v)) :
    frame.Assigns slot v { frame with locals := locals } where
  only := rfl
  reads set := by
    refine (holds'.readLocal_eq_ok (Value.type_ne_void valued)).mpr ⟨within, ?_, rfl⟩
    simp only [Variables.assign, if_true, if_neg set]
  keeps other type w typed apart reads := by
    obtain ⟨inside, there, rfl⟩ := (holds.readLocal_eq_ok typed).mp reads
    refine (holds'.readLocal_eq_ok typed).mpr ⟨inside, ?_, rfl⟩
    have sized : w.type.size ≠ 0 := BasicType.size_ne_zero typed
    have sized' : v.size ≠ 0 := BasicType.size_ne_zero (Value.type_ne_void valued)
    unfold SlotsApart at apart
    unfold SlotsWithin at within inside
    have elsewhere : ¬ other.toNat = slot.toNat := by omega
    have apart' : SlotsApart slot.toNat v.size other.toNat w.type.size := by
      unfold SlotsApart
      omega
    simp only [Variables.assign, if_neg elsewhere, there]
    exact Option.filter_eq_some_iff.mpr ⟨rfl, decide_eq_true apart'⟩
  drops other type typed inside overlap moved := by
    refine holds'.refused_readLocal typed inside fun w there same => ?_
    subst same
    unfold SlotsApart at overlap
    unfold SlotsWithin at within inside
    by_cases here : other.toNat = slot.toNat
    · simp only [Variables.assign, if_pos here] at there
      split at there
      · cases there
      · cases there
        exact moved ⟨by omega, rfl⟩
    · simp only [Variables.assign, if_neg here] at there
      obtain ⟨-, apart⟩ := Option.filter_eq_some_iff.mp there
      have apart' : SlotsApart slot.toNat v.size other.toNat w.type.size := of_decide_eq_true apart
      unfold SlotsApart at apart'
      omega

end HasVariables

/-- A fresh frame with four variables. -/
def fourVariables : Frame :=
  .start ⟨⟨1, "run"⟩, ⟨2, "()V"⟩, .ofNat 0x0009, { Body.empty with maxLocals := 4 }, 0, .void, none,
    none⟩

end Frame

end Jvm
