/-
# Jvm.Proofs.Frame.Placement — arguments in the variables of a frame

A called method finds its arguments in its first variables, each after the slots of the one
before. `withArguments_of_fits` and `withArguments_of_not_fits` say when there is room for them;
`Frame.StartsWith` says what the frame of the method is then, and `startsWith_ofArguments` that
it is so.
-/
import Jvm.Proofs.Frame.Variables
import Jvm.Proofs.OperandStack.Values

namespace Jvm

set_option autoImplicit false

open OperandStack (width width_append width_cons width_nil)

/-! ## Variables filled from the first one on -/

namespace Locals

/-- The variables that a value takes, the first one first. -/
def cellsOf (v : Value) : List Value := if v.size = 2 then [v, .void] else [v]

/-- Variables that hold the given cells, and free ones behind them. -/
def ofCells (cells : List Value) (free : Nat) : Locals :=
  (cells ++ List.replicate free Value.unset).toArray

variable {cells values : List Value} {free slot : Nat} {v : Value}

theorem length_cellsOf (sized : v.size ≠ 0) : (cellsOf v).length = v.size := by
  have := OperandStack.size_le_two v
  unfold cellsOf
  split
  · rename_i two
    rw [two]
    rfl
  · show 1 = v.size
    omega

theorem length_flatMap_cellsOf (sized : ∀ v ∈ values, v.size ≠ 0) :
    (values.flatMap cellsOf).length = width values := by
  induction values with
  | nil => rfl
  | cons v rest ih =>
      rw [List.flatMap_cons, List.length_append, length_cellsOf (sized v List.mem_cons_self),
        ih fun w member => sized w (List.mem_cons_of_mem v member), width_cons]

@[simp] theorem size_ofCells : Array.size (ofCells cells free) = cells.length + free := by
  simp [ofCells]

theorem slotValue_ofCells :
    (ofCells cells free).slotValue slot =
      ((cells ++ List.replicate free Value.unset)[slot]?).getD .unset := by
  unfold slotValue ofCells
  rw [Array.getD_eq_getD_getElem?, List.getElem?_toArray]

/-- Behind the cells all variables are unset. -/
theorem slotValue_behind (behind : cells.length ≤ slot) :
    (ofCells cells free).slotValue slot = .unset := by
  rw [slotValue_ofCells, List.getElem?_append_right behind, List.getElem?_replicate]
  split <;> rfl

/-- The cells of a value are where the cells before it end. -/
theorem slotValue_at {before after : List Value} :
    (ofCells (before ++ (cellsOf v ++ after)) free).slotValue before.length = v ∧
      (v.size = 2 →
        (ofCells (before ++ (cellsOf v ++ after)) free).slotValue (before.length + 1) = .void) := by
  rw [slotValue_ofCells, slotValue_ofCells]
  unfold cellsOf
  split
  · simp
  · rename_i other
    exact ⟨by simp, fun two => absurd two other⟩

theorem vacate_of_unset {locals : Locals} (free : locals.slotValue slot = .unset) :
    locals.vacate slot = locals := by
  unfold vacate
  rw [free]
  rfl

/-- A put right behind the cells. -/
theorem store_append (sized : v.size ≠ 0) (room : v.size ≤ free) :
    (ofCells cells free).store cells.length v =
      ofCells (cells ++ cellsOf v) (free - v.size) := by
  have small := OperandStack.size_le_two v
  have here : (ofCells cells free).slotValue cells.length = .unset :=
    slotValue_behind (Nat.le_refl _)
  have next : (ofCells cells free).slotValue (cells.length + 1) = .unset :=
    slotValue_behind (Nat.le_succ _)
  unfold store cellsOf ofCells at *
  obtain one | two : v.size = 1 ∨ v.size = 2 := by omega
  · obtain ⟨less, rfl⟩ : ∃ less, free = less + 1 := ⟨free - 1, by omega⟩
    rw [if_neg (by omega), if_pos one, if_neg (by omega), vacate_of_unset here, one]
    simp [List.replicate_succ]
  · obtain ⟨less, rfl⟩ : ∃ less, free = less + 2 := ⟨free - 2, by omega⟩
    rw [if_pos two, if_pos two, vacate_of_unset here, vacate_of_unset next, two]
    simp [List.replicate_succ, List.set_append_right]

/-- A put right behind the cells is made if there is room. -/
theorem write_append (sized : v.size ≠ 0) (room : v.size ≤ free) :
    (ofCells cells free).write cells.length v =
      .ok (ofCells (cells ++ cellsOf v) (free - v.size)) := by
  unfold write
  rw [checkRange_eq, if_pos (by unfold SlotsWithin; rw [size_ofCells]; omega)]
  show Except.ok (store _ (Int.toNat cells.length) v) = _
  rw [Int.toNat_natCast, store_append sized room]

theorem write_append_of_lt (full : free < v.size) :
    (ofCells cells free).write cells.length v =
      .error (Cause.halt (.localOutOfRange cells.length (cells.length + free))) := by
  unfold write
  rw [checkRange_eq, if_neg (by unfold SlotsWithin; rw [size_ofCells]; omega), size_ofCells]
  rfl

/-- With room for the first of several values, the others follow behind it. -/
theorem writeAll_cons_append (sized : v.size ≠ 0) (room : v.size ≤ free) :
    (ofCells cells free).writeAll cells.length (v :: values) =
      (ofCells (cells ++ cellsOf v) (free - v.size)).writeAll (cells ++ cellsOf v).length
        values := by
  show ((ofCells cells free).write cells.length v >>= fun locals =>
    locals.writeAll (cells.length + v.size) values) = _
  rw [write_append sized room, List.length_append, length_cellsOf sized]
  rfl

/-- Values put one after another behind the cells. -/
theorem writeAll_append (sized : ∀ v ∈ values, v.size ≠ 0) (room : width values ≤ free) :
    (ofCells cells free).writeAll cells.length values =
      .ok (ofCells (cells ++ values.flatMap cellsOf) (free - width values)) := by
  induction values generalizing cells free with
  | nil => simp [writeAll, pure, Except.pure]
  | cons v rest ih =>
      rw [width_cons] at room
      rw [writeAll_cons_append (sized v List.mem_cons_self) (by omega),
        ih (fun w member => sized w (List.mem_cons_of_mem v member)) (by omega),
        List.flatMap_cons, width_cons, Nat.sub_sub, List.append_assoc]

theorem writeAll_append_of_lt (sized : ∀ v ∈ values, v.size ≠ 0) (full : free < width values) :
    ∃ cause : Cause, (ofCells cells free).writeAll cells.length values = .error cause.halt ∧
      cause.kind = .frame := by
  induction values generalizing cells free with
  | nil => exact absurd full (Nat.not_lt_zero _)
  | cons v rest ih =>
      rw [width_cons] at full
      by_cases room : v.size ≤ free
      · rw [writeAll_cons_append (sized v List.mem_cons_self) room]
        exact ih (fun w member => sized w (List.mem_cons_of_mem v member)) (by omega)
      · refine ⟨.localOutOfRange cells.length (cells.length + free), ?_, rfl⟩
        show ((ofCells cells free).write cells.length v >>= fun locals =>
          locals.writeAll (cells.length + v.size) rest) = _
        rw [write_append_of_lt (Nat.not_le.mp room)]
        rfl

end Locals

/-! ## The frame of a called method -/

namespace Frame

variable {method : Method} {arguments : List Value}

/-- The frame of a method at its start, with its arguments in its first variables. -/
def ofArguments (method : Method) (arguments : List Value) : Frame :=
  withLocals method
    (.ofCells (arguments.flatMap Locals.cellsOf) (method.body.maxLocals - width arguments))

theorem withArguments_eq (method : Method) (arguments : List Value) :
    Frame.withArguments method arguments =
      ((Locals.ofCells [] method.body.maxLocals).writeAll ([] : List Value).length arguments).map
        (withLocals method) := by
  unfold Frame.withArguments Locals.unset Locals.ofCells
  rw [List.nil_append, List.toArray_replicate, List.length_nil]
  cases Locals.writeAll (Array.replicate _ Value.unset) 0 arguments <;> rfl

theorem withArguments_of_fits (sized : ∀ v ∈ arguments, v.size ≠ 0)
    (fits : width arguments ≤ method.body.maxLocals) :
    Frame.withArguments method arguments = .ok (ofArguments method arguments) := by
  rw [withArguments_eq, Locals.writeAll_append sized fits]
  rfl

theorem withArguments_of_not_fits (sized : ∀ v ∈ arguments, v.size ≠ 0)
    (full : method.body.maxLocals < width arguments) :
    ∃ cause : Cause, Frame.withArguments method arguments = .error cause.halt ∧
      cause.kind = .frame := by
  obtain ⟨cause, failed, kind⟩ := @Locals.writeAll_append_of_lt [] _ _ sized full
  refine ⟨cause, ?_, kind⟩
  rw [withArguments_eq, failed]
  rfl

/-- The frame is at the start of a method that was called with arguments. -/
structure StartsWith (frame : Frame) (method : Method) (arguments : List Value) : Prop where
  runs : frame.method = method
  bci : frame.bci = 0
  stack : frame.stack = .empty method.body.maxStack
  inner : frame.isEntry = false ∧ frame.initializing = none
  size : frame.locals.size = method.body.maxLocals
  /-- An argument is behind the slots of those before it; a two-slot one has its upper half next. -/
  placed : ∀ before v after, arguments = before ++ v :: after →
    frame.locals.slotValue (width before) = v ∧
      (v.size = 2 → frame.locals.slotValue (width before + 1) = .void)
  /-- All variables behind the arguments are unset. -/
  unset : ∀ slot, width arguments ≤ slot → frame.locals.slotValue slot = .unset

theorem startsWith_ofArguments (sized : ∀ v ∈ arguments, v.size ≠ 0)
    (fits : width arguments ≤ method.body.maxLocals) :
    (ofArguments method arguments).StartsWith method arguments where
  runs := rfl
  bci := rfl
  stack := rfl
  inner := ⟨rfl, rfl⟩
  size := by
    show Array.size (Locals.ofCells _ _) = _
    rw [Locals.size_ofCells, Locals.length_flatMap_cellsOf sized]
    omega
  placed before v after same := by
    subst same
    have sized' : ∀ w ∈ before, w.size ≠ 0 :=
      fun w member => sized w (List.mem_append_left _ member)
    show (Locals.ofCells _ _).slotValue _ = _ ∧ (_ → (Locals.ofCells _ _).slotValue _ = _)
    rw [← Locals.length_flatMap_cellsOf sized', List.flatMap_append, List.flatMap_cons]
    exact Locals.slotValue_at
  unset slot behind := by
    show (Locals.ofCells _ _).slotValue slot = _
    exact Locals.slotValue_behind (by rwa [Locals.length_flatMap_cellsOf sized])

end Frame

end Jvm
