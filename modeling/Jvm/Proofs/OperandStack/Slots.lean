/-
# Jvm.Proofs.OperandStack.Slots — when an operation on the slots succeeds

One lemma for each operation of an operand stack says exactly when it succeeds and with what:
`push_eq_ok`, `popTyped_eq_ok`, `drop_eq_ok`, `dup_eq_ok`, `swap_eq_ok`. What else can happen is
a halt, and `Refused` says of which kind.
-/
import Jvm.OperandStack

namespace Jvm

set_option autoImplicit false

/-- The halts of an operation that finds the stack too full, too empty or holding something
else. -/
def Halt.IsRefusal (halt : Halt) : Prop :=
  ∃ cause : Cause, halt = cause.halt ∧ (cause.kind = .frame ∨ cause.kind = .type)

theorem BasicType.size_ne_zero {type : BasicType} (valued : type ≠ .void) : type.size ≠ 0 := by
  intro none
  cases type <;> first | exact valued rfl | cases none

namespace OperandStack

variable {stack later : OperandStack} {v : Value} {type : BasicType} {halt : Halt}

/-! ## The checks -/

theorem checkRoom_eq_ok {count : Nat} :
    stack.checkRoom count = .ok () ↔ stack.used + count ≤ stack.capacity := by
  unfold checkRoom
  split <;> simp <;> omega

theorem checkUsed_eq_ok {count : Nat} : stack.checkUsed count = .ok () ↔ count ≤ stack.used := by
  unfold checkUsed
  split <;> simp <;> omega

theorem checkBoundary_eq_ok {depth : Nat} :
    stack.checkBoundary depth = .ok () ↔ stack.isBoundary depth = true := by
  unfold checkBoundary
  split <;> simp_all

theorem refused_checkRoom {count : Nat} (failed : stack.checkRoom count = .error halt) :
    halt.IsRefusal := by
  unfold checkRoom at failed
  split at failed
  · cases failed
    exact ⟨_, rfl, .inl rfl⟩
  · cases failed

theorem refused_checkUsed {count : Nat} (failed : stack.checkUsed count = .error halt) :
    halt.IsRefusal := by
  unfold checkUsed at failed
  split at failed
  · cases failed
    exact ⟨_, rfl, .inl rfl⟩
  · cases failed

theorem refused_checkBoundary {depth : Nat} (failed : stack.checkBoundary depth = .error halt) :
    halt.IsRefusal := by
  unfold checkBoundary at failed
  split at failed
  · cases failed
  · cases failed
    exact ⟨_, rfl, .inr rfl⟩

section Check

variable {α : Type} {check : Except Halt Unit} {next : Unit → Except Halt α}

/-- A check in front of an operation. -/
theorem check_eq_ok {w : α} :
    (check >>= next) = .ok w ↔ check = .ok () ∧ next () = .ok w := by
  cases check <;> simp [bind, Except.bind]

theorem check_eq_error :
    (check >>= next) = .error halt ↔ check = .error halt ∨ check = .ok () ∧ next () = .error halt := by
  cases check <;> simp [bind, Except.bind]

theorem map_eq_ok {β : Type} {change : α → β} {answer : Except Halt α} {w : β} :
    answer.map change = .ok w ↔ ∃ v, answer = .ok v ∧ change v = w := by
  cases answer <;> simp [Except.map]

theorem map_eq_error {β : Type} {change : α → β} {answer : Except Halt α} :
    answer.map change = .error halt ↔ answer = .error halt := by
  cases answer <;> simp [Except.map]

end Check

/-! ## The operations -/

theorem push_eq_ok :
    stack.push v = .ok later ↔ (v ≠ .unset ∧ v ≠ .void) ∧ stack.used + v.size ≤ stack.capacity ∧
      later = stack.raise (slotsOf v) := by
  unfold push
  by_cases untyped : v.isUnset = true ∨ v = .void
  · simp only [if_pos untyped]
    constructor
    · intro pushed
      cases pushed
    · rintro ⟨⟨typed, whole⟩, -⟩
      rcases untyped with unset | void
      · exact absurd (by simpa [Value.isUnset] using unset) typed
      · exact absurd void whole
  · simp only [if_neg untyped]
    have typed : v ≠ .unset ∧ v ≠ .void := by
      rw [not_or] at untyped
      exact ⟨by simpa [Value.isUnset] using untyped.1, untyped.2⟩
    show (stack.checkRoom v.size >>= fun _ => _) = _ ↔ _
    rw [check_eq_ok, checkRoom_eq_ok]
    constructor
    · rintro ⟨room, made⟩
      cases made
      exact ⟨typed, room, rfl⟩
    · rintro ⟨-, room, rfl⟩
      exact ⟨room, rfl⟩

theorem refused_push (typed : v ≠ .unset ∧ v ≠ .void) (failed : stack.push v = .error halt) :
    halt.IsRefusal := by
  unfold push at failed
  have whole : ¬ (v.isUnset = true ∨ v = .void) := by
    rw [not_or]
    exact ⟨by simpa [Value.isUnset] using typed.1, typed.2⟩
  rw [if_neg whole] at failed
  rcases check_eq_error.mp failed with full | ⟨-, made⟩
  · exact refused_checkRoom full
  · cases made

theorem size_le_two (v : Value) : v.size ≤ 2 := by
  unfold Value.size
  cases v.type <;> decide

theorem length_slotsOf (sized : v.size ≠ 0) : (slotsOf v).length = v.size := by
  have := size_le_two v
  unfold slotsOf
  split
  · rename_i two
    rw [two]
    rfl
  · show 1 = v.size
    omega

/-- Giving up the slots of the value on top leaves the others. -/
theorem slots_lower {rest : List Value} (sized : v.size ≠ 0)
    (slots : stack.slots = slotsOf v ++ rest) : (stack.lower v.size).slots = rest := by
  show stack.slots.drop v.size = rest
  rw [slots, ← length_slotsOf sized, List.drop_left]

/-- The slot in which a value of one or two slots starts, on top of the others. -/
theorem startSlot?_eq_some (sized : v.size ≠ 0) :
    stack.startSlot? v.size = some v ↔ ∃ rest, stack.slots = slotsOf v ++ rest := by
  have small := size_le_two v
  obtain one | two : v.size = 1 ∨ v.size = 2 := by omega
  · rw [one]
    simp only [startSlot?, slotsOf, one]
    cases stack.slots <;> simp
  · rw [two]
    simp only [startSlot?, slotsOf, two]
    constructor
    · intro start
      split at start
      · rename_i below rest slots
        cases start
        exact ⟨rest, by rw [slots]; rfl⟩
      · cases start
    · rintro ⟨rest, slots⟩
      rw [slots]
      rfl

theorem popTyped_eq_ok (sized : type.size ≠ 0) :
    stack.popTyped type = .ok (v, later) ↔ v.type = type ∧ (∃ rest, stack.slots = slotsOf v ++ rest) ∧
      later = stack.lower type.size := by
  unfold popTyped
  rw [check_eq_ok, checkUsed_eq_ok]
  constructor
  · rintro ⟨-, taken⟩
    split at taken
    · rename_i found
      cases taken
      obtain ⟨start, same⟩ := Option.filter_eq_some_iff.mp found
      have tag : v.type = type := by simpa using same
      subst tag
      exact ⟨rfl, (startSlot?_eq_some sized).mp start, rfl⟩
    · cases taken
  · rintro ⟨rfl, top, rfl⟩
    have start := (startSlot?_eq_some sized).mpr top
    obtain ⟨rest, slots⟩ := top
    refine ⟨?_, ?_⟩
    · rw [stack.used_eq, slots, List.length_append, length_slotsOf sized]
      exact Nat.le_add_right _ _
    · have found : (stack.startSlot? v.type.size).filter (·.type == v.type) = some v :=
        Option.filter_eq_some_iff.mpr ⟨start, beq_self_eq_true _⟩
      rw [found]
      rfl

theorem capacity_popTyped (taken : stack.popTyped type = .ok (v, later)) :
    later.capacity = stack.capacity := by
  unfold popTyped at taken
  obtain ⟨-, taken⟩ := check_eq_ok.mp taken
  split at taken
  · cases taken
    rfl
  · cases taken

theorem refused_popTyped (failed : stack.popTyped type = .error halt) : halt.IsRefusal := by
  unfold popTyped at failed
  rcases check_eq_error.mp failed with few | ⟨-, other⟩
  · exact refused_checkUsed few
  · split at other
    · cases other
    · cases other
      exact ⟨_, rfl, .inr rfl⟩

theorem drop_eq_ok {count : Nat} :
    stack.drop count = .ok later ↔ count ≤ stack.used ∧ stack.isBoundary count = true ∧
      later = stack.lower count := by
  show stack.drop (.ofNat count) = .ok later ↔ _
  unfold drop
  rw [check_eq_ok, checkUsed_eq_ok, check_eq_ok, checkBoundary_eq_ok]
  simp only [pure, Except.pure, Except.ok.injEq, eq_comm]

theorem refused_drop {count : Nat} (failed : stack.drop count = .error halt) :
    halt.IsRefusal := by
  change stack.drop (.ofNat count) = .error halt at failed
  unfold drop at failed
  rcases check_eq_error.mp failed with few | ⟨-, failed⟩
  · exact refused_checkUsed few
  · rcases check_eq_error.mp failed with halved | ⟨-, made⟩
    · exact refused_checkBoundary halved
    · cases made

theorem dup_eq_ok {count under : Nat} :
    stack.dup count under = .ok later ↔ count + under ≤ stack.used ∧
      stack.used + count ≤ stack.capacity ∧ stack.isBoundary count = true ∧
      stack.isBoundary (count + under) = true ∧ later = stack.copyUnder count under := by
  show stack.dup (.ofNat count) (.ofNat under) = .ok later ↔ _
  unfold dup
  rw [check_eq_ok, checkUsed_eq_ok, check_eq_ok, checkRoom_eq_ok, check_eq_ok, checkBoundary_eq_ok,
    check_eq_ok, checkBoundary_eq_ok]
  simp only [pure, Except.pure, Except.ok.injEq, eq_comm]

theorem refused_dup {count under : Nat} (failed : stack.dup count under = .error halt) :
    halt.IsRefusal := by
  change stack.dup (.ofNat count) (.ofNat under) = .error halt at failed
  unfold dup at failed
  rcases check_eq_error.mp failed with few | ⟨-, failed⟩
  · exact refused_checkUsed few
  · rcases check_eq_error.mp failed with full | ⟨-, failed⟩
    · exact refused_checkRoom full
    · rcases check_eq_error.mp failed with halved | ⟨-, failed⟩
      · exact refused_checkBoundary halved
      · rcases check_eq_error.mp failed with halved | ⟨-, made⟩
        · exact refused_checkBoundary halved
        · cases made

@[simp] theorem exchange_capacity : stack.exchange.capacity = stack.capacity := by
  unfold exchange
  split <;> rfl

@[simp] theorem exchange_used : stack.exchange.used = stack.used := by
  unfold exchange
  split <;> rfl

theorem swap_eq_ok :
    stack.swap = .ok later ↔ 2 ≤ stack.used ∧ stack.isBoundary 1 = true ∧
      stack.isBoundary 2 = true ∧ later = stack.exchange := by
  unfold swap
  rw [check_eq_ok, checkUsed_eq_ok, check_eq_ok, checkBoundary_eq_ok, check_eq_ok,
    checkBoundary_eq_ok]
  simp only [pure, Except.pure, Except.ok.injEq, eq_comm]

theorem refused_swap (failed : stack.swap = .error halt) : halt.IsRefusal := by
  unfold swap at failed
  rcases check_eq_error.mp failed with few | ⟨-, failed⟩
  · exact refused_checkUsed few
  · rcases check_eq_error.mp failed with halved | ⟨-, failed⟩
    · exact refused_checkBoundary halved
    · rcases check_eq_error.mp failed with halved | ⟨-, made⟩
      · exact refused_checkBoundary halved
      · cases made

end OperandStack

end Jvm
