/-
# Jvm.Proofs.Call.Twins — calls of twins

Twins that call a method with the same arguments, references to objects of the thread at most, agree
(`Twins.agree_run`). What a call answers, the thread holds.
-/
import Jvm.Machine.Call
import Jvm.Proofs.Machine.TwinSteps

namespace Jvm

set_option autoImplicit false

open Exec Machine

namespace Twins

variable {base : Machine} {twins : Twins base}

open Call

theorem agree_initializeFully (fuel : Nat) {c : LinkedClass} (tries : Nat) (shared : twins.Shared c) :
    Agree (initializeFully fuel c tries) twins fun _ _ => True := by
  induction tries generalizing twins with
  | zero => exact agree_throw _
  | succ tries ih =>
      refine agree_bind_thread ((agree_ensureReady shared).bind fun ready asked onward _ => ?_)
      split
      · exact agree_pure trivial
      · have nothing : asked.Holds .void := trivial
        refine (agree_runAbove _ fuel nothing).bind fun _ later onward' _ => ?_
        exact ih (onward'.shared (onward.shared shared))

section Method

variable {method : Method} {arguments : List Value}

theorem agree_callNativeMethod (offers : twins.Offers method)
    (held : ∀ v ∈ arguments, twins.Holds v) :
    Agree (Call.runNative method arguments) twins fun v later => later.Holds v := by
  unfold Call.runNative
  cases bound : method.native with
  | none => exact agree_fail _
  | some native =>
      refine (agree_native (offers.sound.1.native native bound) held).bind
        fun answer later _ holds => agree_pure ?_
      cases answer with
      | none =>
          show later.Holds (if method.result = .void then .void else .unset)
          split <;> trivial
      | some v => exact holds v rfl

theorem agree_runReady (fuel : Nat) (offers : twins.Offers method)
    (held : ∀ v ∈ arguments, twins.Holds v) :
    Agree (runReady fuel method arguments) twins fun v later => later.Holds v := by
  unfold runReady
  split
  · exact agree_callNativeMethod offers held
  · split
    · exact agree_fail _
    · refine agree_bind_thread ((agree_ofHalt _).bind fun callee later _ ended => ?_)
      obtain ⟨made, rfl⟩ := ended
      obtain ⟨-, id, owner, knows⟩ := offers.sound
      have within := Frame.within_withArguments held made
      obtain ⟨locals, rfl⟩ := Frame.withArguments_eq_ok made
      refine (agree_pushFrame ?_ owner knows).bind fun _ _ _ _ => agree_runAbove _ fuel trivial
      exact ⟨within.locals, within.stack⟩

theorem agree_runChecked (fuel : Nat) (offers : twins.Offers method)
    (held : ∀ v ∈ arguments, twins.Holds v) :
    Agree (runChecked fuel method arguments) twins fun v later => later.Holds v := by
  obtain ⟨-, id, owner, knows⟩ := offers.sound
  refine (agree_ofCause _).bind fun _ later _ ended => ?_
  obtain ⟨-, rfl⟩ := ended
  rw [owner]
  refine (agree_classOf knows).bind fun c later _ ended => ?_
  obtain ⟨rfl, shared, -⟩ := ended
  refine (agree_initializeFully fuel fuel shared).bind fun _ later onward _ => ?_
  exact agree_runReady fuel (offers.onward onward) fun v member => (held v member).onward onward

/-- A call answers or halts the same on twins, and leaves twins. -/
theorem agree_run (fuel : Nat) (offers : twins.Offers method)
    (held : ∀ v ∈ arguments, twins.Holds v) :
    Agree (Call.run fuel method arguments) twins fun v later => later.Holds v := by
  have beside {twins : Twins base} (state : ThreadState) :
      Thread.Sound twins.Knows { twins.one.thread with state := state } :=
    twins.sound.beside rfl rfl rfl rfl rfl
  refine agree_bind_thread ?_
  refine (agree_updateThread (beside .inProgram) (.of_heap rfl rfl)).bind fun _ begun onward _ => ?_
  have checked := agree_runChecked fuel (offers.onward onward) fun v member =>
    (held v member).onward onward
  generalize twins.one.thread.state = state
  generalize twins.one.thread.depth = depth
  have halts : Agree ((runChecked fuel method arguments).onHalt fun machine =>
      machine.updateThread fun thread => { thread.unwindTo depth with state := state }) begun
      fun v later => later.Holds v := by
    refine agree_onHalt checked (fun later _ => ?_) fun thread => ?_
    · exact (later.sound.unwindTo depth).beside rfl rfl rfl rfl rfl
    · exact .of_heap (thread.same_unwindTo depth).1 (thread.same_unwindTo depth).2.1
  refine halts.bind fun v later _ holds => ?_
  refine (agree_updateThread (beside state) (.of_heap rfl rfl)).bind fun _ restored onward _ => ?_
  exact agree_pure (holds.onward onward)

end Method

/-- A method that is found by its name is called the same on twins. -/
theorem agree_runNamed (fuel : Nat) {c : LinkedClass} (shared : twins.Shared c)
    (name descriptor : String) {arguments : List Value} (held : ∀ v ∈ arguments, twins.Holds v) :
    Agree (runNamed fuel c name descriptor arguments) twins fun v later => later.Holds v := by
  obtain ⟨same, offers⟩ := twins.findMethod?_eq (fun _ => twins.knows_of_mem_chain shared) name
    descriptor
  refine agree_bind_get (by rw [same]) ?_
  cases found : twins.one.findMethod? c.chain name descriptor with
  | none => exact agree_fail _
  | some method => exact agree_run fuel (offers method found) held

end Twins

end Jvm
