/-
# Jvm.Proofs.OperandStack.Values — slots as values

The slots of an operand stack stand for a list of values: a `long` or `double` for the two slots
that it takes, any other value for its own. `decode` reads the values off the slots, and
`encode` lays them out again. An operation on slots checks one or two places for the upper half
of a value; `isBoundary_iff` says that such a check is all that is needed, because a place in the
slots of whole values either lies between two values or inside one (`exists_split`).
-/
import Mathlib.Algebra.GroupWithZero.Nat
import Jvm.Proofs.OperandStack.Slots

namespace Jvm

set_option autoImplicit false

namespace OperandStack

/-! ## Encoding and decoding -/

/-- A value that can be on an operand stack. -/
def Typed (v : Value) : Prop := v ≠ .unset ∧ v ≠ .void

instance (v : Value) : Decidable (Typed v) := inferInstanceAs (Decidable (_ ∧ _))

/-- The slots of values, the top one first. -/
def encode (values : List Value) : List Value := values.flatMap slotsOf

/-- The values that slots stand for, the top one first, if they stand for any. -/
def decode : List Value → Option (List Value)
  | [] => some []
  | [top] => if top.size = 1 ∧ top ≠ .unset then some [top] else none
  | top :: below :: rest =>
      if top = .void then if below.size = 2 then (decode rest).map (below :: ·) else none
      else if top.size = 1 ∧ top ≠ .unset then (decode (below :: rest)).map (top :: ·)
      else none

/-- The number of slots that values take. -/
def width (values : List Value) : Nat := (values.map Value.size).sum

theorem size_of_typed {v : Value} (typed : Typed v) : v.size = 1 ∨ v.size = 2 := by
  obtain ⟨-, whole⟩ := typed
  cases v with
  | mark tag =>
      cases tag with
      | void => exact absurd rfl whole
      | _ => exact .inl rfl
  | long => exact .inr rfl
  | double => exact .inr rfl
  | _ => exact .inl rfl

@[simp] theorem width_nil : width [] = 0 := rfl

@[simp] theorem width_cons (v : Value) (rest : List Value) :
    width (v :: rest) = v.size + width rest := by
  simp [width]

@[simp] theorem width_append (top rest : List Value) :
    width (top ++ rest) = width top + width rest := by
  simp [width]

@[simp] theorem encode_nil : encode [] = [] := rfl

@[simp] theorem encode_cons (v : Value) (rest : List Value) :
    encode (v :: rest) = slotsOf v ++ encode rest := rfl

@[simp] theorem encode_append (top rest : List Value) :
    encode (top ++ rest) = encode top ++ encode rest := by
  simp [encode]

theorem length_encode {values : List Value} (typed : ∀ v ∈ values, Typed v) :
    (encode values).length = width values := by
  induction values with
  | nil => rfl
  | cons v rest ih =>
      have sized : v.size ≠ 0 := by
        have := size_of_typed (typed v List.mem_cons_self)
        omega
      rw [encode_cons, List.length_append, length_slotsOf sized, width_cons,
        ih fun w member => typed w (List.mem_cons_of_mem v member)]

theorem slotsOf_one {v : Value} (one : v.size = 1) : slotsOf v = [v] := by
  simp [slotsOf, one]

theorem slotsOf_two {v : Value} (two : v.size = 2) : slotsOf v = [.void, v] := by
  simp [slotsOf, two]

/-- A value of one slot on top of slots. -/
theorem decode_cons {v : Value} (typed : Typed v) (one : v.size = 1) (slots : List Value) :
    decode (v :: slots) = (decode slots).map (v :: ·) := by
  cases slots with
  | nil => simp [decode, one, typed.1]
  | cons below rest => simp [decode, one, typed.1, typed.2]

theorem decode_encode {values : List Value} (typed : ∀ v ∈ values, Typed v) :
    decode (encode values) = some values := by
  induction values with
  | nil => rfl
  | cons v rest ih =>
      have read := ih fun w member => typed w (List.mem_cons_of_mem v member)
      have here := typed v List.mem_cons_self
      rw [encode_cons]
      rcases size_of_typed here with one | two
      · rw [slotsOf_one one, List.singleton_append, decode_cons here one, read, Option.map_some]
      · rw [slotsOf_two two]
        show decode (.void :: v :: encode rest) = _
        unfold decode
        rw [if_pos rfl, if_pos two, read, Option.map_some]

theorem typed_of_one {v : Value} (one : v.size = 1) (set : v ≠ .unset) : Typed v :=
  ⟨set, fun void => absurd (void ▸ one) (by decide)⟩

theorem typed_of_two {v : Value} (two : v.size = 2) : Typed v :=
  ⟨fun unset => absurd (unset ▸ two) (by decide), fun void => absurd (void ▸ two) (by decide)⟩

/-- Slots that stand for values are the slots of these values. -/
theorem encode_of_decode {slots values : List Value} (read : decode slots = some values) :
    encode values = slots ∧ ∀ v ∈ values, Typed v := by
  fun_induction decode slots generalizing values with
  | case1 =>
      cases read
      exact ⟨rfl, by simp⟩
  | case2 top whole =>
      cases read
      exact ⟨by simp [slotsOf_one whole.1], by simpa using typed_of_one whole.1 whole.2⟩
  | case4 v rest two ih =>
      obtain ⟨others, below, rfl⟩ := Option.map_eq_some_iff.mp read
      obtain ⟨slots, typed⟩ := ih below
      refine ⟨by rw [encode_cons, slotsOf_two two, slots]; rfl, ?_⟩
      exact List.forall_mem_cons.mpr ⟨typed_of_two two, typed⟩
  | case6 top next rest _ whole ih =>
      obtain ⟨others, below, rfl⟩ := Option.map_eq_some_iff.mp read
      obtain ⟨slots, typed⟩ := ih below
      refine ⟨by rw [encode_cons, slotsOf_one whole.1, slots]; rfl, ?_⟩
      exact List.forall_mem_cons.mpr ⟨typed_of_one whole.1 whole.2, typed⟩
  | _ => cases read

/-! ## Places between values -/

/-- A place in the slots of values lies between two values or inside one. -/
theorem exists_split {values : List Value} (typed : ∀ v ∈ values, Typed v) {count : Nat}
    (enough : count ≤ width values) :
    (∃ top rest, values = top ++ rest ∧ width top = count) ∨
      ∃ top v rest, values = top ++ v :: rest ∧ v.size = 2 ∧ width top + 1 = count := by
  induction values generalizing count with
  | nil => exact .inl ⟨[], [], rfl, (Nat.le_zero.mp enough).symm⟩
  | cons v rest ih =>
      rw [width_cons] at enough
      have others := fun w member => typed w (List.mem_cons_of_mem v member)
      by_cases none : count = 0
      · exact .inl ⟨[], v :: rest, rfl, none.symm⟩
      by_cases inside : v.size = 2 ∧ count = 1
      · exact .inr ⟨[], v, rest, rfl, inside.1, inside.2.symm⟩
      have fits : v.size ≤ count := by
        rcases size_of_typed (typed v List.mem_cons_self) with one | two <;> omega
      have fewer : count - v.size ≤ width rest := by omega
      rcases ih others fewer with ⟨top, below, rfl, filled⟩ | ⟨top, w, below, rfl, two, filled⟩
      · exact .inl ⟨v :: top, below, rfl, by rw [width_cons]; omega⟩
      · exact .inr ⟨v :: top, w, below, rfl, two, by rw [width_cons]; omega⟩

theorem getLast?_encode (values : List Value) : (encode values).getLast? = values.getLast? := by
  induction values with
  | nil => rfl
  | cons v rest ih =>
      have last : (slotsOf v).getLast? = some v := by
        unfold slotsOf
        split <;> rfl
      rw [encode_cons, List.getLast?_append, ih, last, List.getLast?_cons]
      cases rest.getLast? <;> rfl

/-- The lowest of the slots above a place is the upper half of a value exactly if the place is
inside this value. -/
theorem isBoundary_iff {stack : OperandStack} {values : List Value}
    (slots : stack.slots = encode values) (typed : ∀ v ∈ values, Typed v) {depth : Nat}
    (enough : depth ≤ width values) :
    stack.isBoundary depth = true ↔ ∃ top rest, values = top ++ rest ∧ width top = depth := by
  constructor
  · intro boundary
    rcases exists_split typed enough with between | ⟨top, v, rest, rfl, two, filled⟩
    · exact between
    · have above := length_encode fun w member => typed w (List.mem_append_left _ member)
      have half : stack.slots[depth - 1]? = some .void := by
        rw [slots, encode_append, encode_cons, slotsOf_two two, ← filled,
          List.getElem?_append_right (by omega), above]
        simp
      unfold isBoundary at boundary
      rw [half] at boundary
      simp at boundary
      omega
  · rintro ⟨top, rest, rfl, rfl⟩
    have above := length_encode fun w member => typed w (List.mem_append_left _ member)
    unfold isBoundary
    cases last : top.getLast? with
    | none =>
        obtain rfl := List.getLast?_eq_none_iff.mp last
        rfl
    | some v =>
        have member := List.mem_of_getLast? last
        have lowest : stack.slots[width top - 1]? = some v := by
          rw [slots, encode_append, ← above, List.getElem?_append_left, ← List.getLast?_eq_getElem?,
            getLast?_encode, last]
          have filled : encode top ≠ [] := fun empty => by
            rw [← getLast?_encode, empty] at last
            cases last
          exact Nat.sub_lt (List.length_pos_iff.mpr filled) Nat.one_pos
        rw [lowest]
        have whole := (typed v (List.mem_append_left _ member)).2
        simp [whole]

/-- The value that the slots of values start with is the top one of them. -/
theorem top_of_slots {v : Value} {values rest : List Value} (typed : ∀ w ∈ values, Typed w)
    (sized : v.size ≠ 0) (slots : encode values = slotsOf v ++ rest) :
    ∃ below, values = v :: below := by
  have small := size_le_two v
  have whole : v ≠ .void := fun void => sized (void ▸ rfl)
  cases values with
  | nil =>
      have lengths := congrArg List.length slots
      rw [List.length_append, length_slotsOf sized, encode_nil, List.length_nil] at lengths
      omega
  | cons w below =>
      have top := typed w List.mem_cons_self
      rw [encode_cons] at slots
      obtain one | two : v.size = 1 ∨ v.size = 2 := by omega
      · rcases size_of_typed top with one' | two'
        · rw [slotsOf_one one, slotsOf_one one'] at slots
          obtain ⟨rfl, -⟩ := List.cons.inj slots
          exact ⟨below, rfl⟩
        · rw [slotsOf_one one, slotsOf_two two'] at slots
          exact absurd (List.cons.inj slots).1.symm whole
      · rcases size_of_typed top with one' | two'
        · rw [slotsOf_two two, slotsOf_one one'] at slots
          exact absurd (List.cons.inj slots).1 top.2
        · rw [slotsOf_two two, slotsOf_two two'] at slots
          obtain ⟨rfl, -⟩ := List.cons.inj (List.cons.inj slots).2
          exact ⟨below, rfl⟩

theorem size_pos {v : Value} (typed : Typed v) : 0 < v.size := by
  rcases size_of_typed typed with one | two <;> omega

theorem eq_nil_of_width {values : List Value} (typed : ∀ v ∈ values, Typed v)
    (none : width values = 0) : values = [] := by
  cases values with
  | nil => rfl
  | cons v rest =>
      have := size_pos (typed v List.mem_cons_self)
      rw [width_cons] at none
      omega

theorem eq_singleton_of_width {values : List Value} (typed : ∀ v ∈ values, Typed v)
    (one : width values = 1) : ∃ v, values = [v] ∧ v.size = 1 := by
  cases values with
  | nil => cases one
  | cons v rest =>
      have := size_pos (typed v List.mem_cons_self)
      rw [width_cons] at one
      obtain rfl := eq_nil_of_width (fun w member => typed w (List.mem_cons_of_mem v member))
        (by omega : width rest = 0)
      exact ⟨v, rfl, by simpa using one⟩

/-- Of two places between values, the upper one divides what is above the lower one. -/
theorem exists_under {values top both rest rest' : List Value} {count under : Nat}
    (typed : ∀ v ∈ values, Typed v) (upper : values = top ++ rest) (filled : width top = count)
    (lower : values = both ++ rest') (filled' : width both = count + under) :
    ∃ middle, both = top ++ middle ∧ width middle = under := by
  rcases List.append_eq_append_iff.mp (upper.symm.trans lower) with
    ⟨middle, rfl, -⟩ | ⟨middle, rfl, -⟩
  · exact ⟨middle, rfl, by rw [width_append] at filled'; omega⟩
  · rw [width_append] at filled
    have none : width middle = 0 := by omega
    obtain rfl := eq_nil_of_width
      (fun v member => typed v (by rw [upper]; simp [member])) none
    exact ⟨[], by simp, by simpa using (by omega : 0 = under)⟩

end OperandStack

end Jvm
