/-
# Jvm.Proofs.Machine.Threads — the threads of a machine

Threads are told apart by their numbers, and a new thread gets a number above those of all others
(`Machine.Numbered`). So a number names one thread, whichever thread is current. Loading and
defining classes leave all threads as they are (`Loading.keeps_resolve_threads`).
-/
import Mathlib.Data.List.Nodup
import Jvm.Machine.Start
import Jvm.Proofs.Machine.Growth

namespace Jvm

set_option autoImplicit false

/-- Dropping frames leaves the number, the objects and the strings of a thread alone. -/
theorem Thread.same_unwindTo (thread : Thread) (depth : Nat) :
    (thread.unwindTo depth).number = thread.number ∧ (thread.unwindTo depth).heap = thread.heap ∧
      (thread.unwindTo depth).strings = thread.strings := by
  have dropped (thread : Thread) : thread.dropFrame.number = thread.number ∧
      thread.dropFrame.heap = thread.heap ∧ thread.dropFrame.strings = thread.strings := by
    unfold dropFrame
    split
    · exact ⟨rfl, rfl, rfl⟩
    · unfold abandon
      split <;> exact ⟨rfl, rfl, rfl⟩
  unfold unwindTo
  generalize thread.depth - depth = count
  induction count generalizing thread with
  | zero => exact ⟨rfl, rfl, rfl⟩
  | succ count ih =>
      obtain ⟨number, heap, strings⟩ := dropped thread
      obtain ⟨number', heap', strings'⟩ := ih thread.dropFrame
      exact ⟨number'.trans number, heap'.trans heap, strings'.trans strings⟩

namespace Machine

/-- The current thread and the others. -/
def threads (machine : Machine) : List Thread := machine.thread :: machine.parked

/-- Numbers tell the threads apart, and there are no numbers but those given so far. -/
structure Numbered (machine : Machine) : Prop where
  apart : (machine.threads.map (·.number)).Nodup
  counted : ∀ thread ∈ machine.threads, thread.number ≤ machine.parked.length

variable {machine before after : Machine}

theorem numbers_of_parked (number : after.thread.number = before.thread.number)
    (parked : after.parked.map Thread.heapless = before.parked.map Thread.heapless) :
    after.threads.map (·.number) = before.threads.map (·.number) := by
  have same := congrArg (List.map (·.number)) parked
  rw [List.map_map, List.map_map] at same
  exact congrArg₂ List.cons number same

/-- Only the order of the threads and what they hold is another. -/
theorem Numbered.of_perm (numbered : before.Numbered)
    (perm : (before.threads.map (·.number)).Perm (after.threads.map (·.number))) :
    after.Numbered := by
  have length : before.parked.length = after.parked.length := by
    simpa [threads] using perm.length_eq
  refine ⟨perm.nodup_iff.mp numbered.apart, fun thread member => ?_⟩
  obtain ⟨old, member', same⟩ := List.mem_map.mp (perm.mem_iff.mpr (List.mem_map_of_mem member))
  rw [← length, ← same]
  exact numbered.counted old member'

theorem Numbered.grows (numbered : before.Numbered) (grows : before.Grows after) :
    after.Numbered :=
  numbered.of_perm (.of_eq (numbers_of_parked grows.number grows.parked).symm)

/-- A thread is known by its number. -/
theorem Numbered.eq_of_number (numbered : machine.Numbered) {thread other : Thread}
    (member : thread ∈ machine.threads) (member' : other ∈ machine.threads)
    (same : thread.number = other.number) : thread = other :=
  List.inj_on_of_nodup_map numbered.apart member member' same

/-- The thread of a number and the threads of other numbers are all of them. -/
theorem perm_of_number {threads : List Thread} {thread : Thread} (member : thread ∈ threads)
    (apart : (threads.map (·.number)).Nodup) :
    threads.Perm (thread :: threads.filter (·.number != thread.number)) := by
  induction threads with
  | nil => cases member
  | cons head rest ih =>
      rw [List.map_cons, List.nodup_cons] at apart
      obtain ⟨fresh, apart'⟩ := apart
      have others : ∀ other ∈ rest, other.number ≠ head.number := fun other listed same =>
        fresh (same ▸ List.mem_map_of_mem listed)
      rcases List.mem_cons.mp member with rfl | member'
      · rw [List.filter_cons_of_neg (by simp), List.filter_eq_self.mpr fun other listed => by
          simpa using others other listed]
      · rw [List.filter_cons_of_pos (by simpa using (others thread member').symm)]
        exact ((ih member' apart').cons head).trans (.swap thread head _)

/-- When another thread becomes current, none is lost. -/
theorem Numbered.perm_switch (numbered : machine.Numbered) {thread : Thread}
    (waits : thread ∈ machine.parked) :
    machine.threads.Perm
      (thread :: machine.thread :: machine.parked.filter (·.number != thread.number)) :=
  ((perm_of_number waits (List.nodup_cons.mp numbered.apart).2).cons machine.thread).trans
    (.swap thread machine.thread _)

/-- The number of a new thread is not taken. -/
theorem Numbered.fresh (numbered : machine.Numbered) :
    ∀ thread ∈ machine.threads, thread.number ≠ machine.parked.length + 1 := by
  intro thread member same
  have counted := numbered.counted thread member
  omega

theorem Numbered.create (numbered : machine.Numbered) (name : String) (heap : Heap) :
    Numbered { machine with
      thread := .start (machine.parked.length + 1) name .new heap
      parked := machine.thread :: machine.parked } := by
  refine ⟨List.nodup_cons.mpr ⟨fun listed => ?_, numbered.apart⟩, fun thread member => ?_⟩
  · obtain ⟨thread, member, same⟩ := List.mem_map.mp listed
    exact numbered.fresh thread member same
  · rcases List.mem_cons.mp member with rfl | old
    · exact Nat.le_refl _
    · exact Nat.le_succ_of_le (numbered.counted thread old)

end Machine

/-! ## Loading -/

namespace Exec

theorem keeps_trace_threads {threads : List Thread} (wanted : Options → Bool) (line : String) :
    Keeps (·.threads = threads) (trace wanted line) := by
  refine keeps_modify fun machine same => ?_
  split <;> exact same

end Exec

namespace Loading

open Exec

variable {threads : List Thread}

theorem keeps_load_threads (name : String) : Keeps (·.threads = threads) (load name) := by
  refine keeps_bind keeps_get fun machine => ?_
  dsimp only
  split
  · exact keeps_pure _
  · refine keeps_bind (keeps_ofFault _) fun c => keeps_guard ?_
    exact keeps_bind (keeps_trace_threads _ _) fun _ => keeps_pure _

theorem keeps_superOf_threads {find : String → Exec LinkedClass}
    (finds : ∀ name, Keeps (·.threads = threads) (find name)) (name : String)
    (superName : Option String) : Keeps (·.threads = threads) (superOf find name superName) := by
  cases superName with
  | none => exact keeps_pure _
  | some above =>
      unfold superOf
      dsimp only
      refine keeps_guard (keeps_bind (finds above) fun super => ?_)
      exact keeps_guard (keeps_pure _)

theorem keeps_add_threads (c : Class) (super : Option LinkedClass) :
    Keeps (·.threads = threads) (add c super) := by
  refine keeps_bind keeps_get fun machine => keeps_bind (keeps_ofCause _) fun linked => ?_
  refine keeps_bind (keeps_modify fun _ same => same) fun _ => ?_
  exact keeps_bind (keeps_trace_threads _ _) fun _ => keeps_pure _

theorem keeps_resolveWithin_threads (fuel : Nat) (loading : List String) (name : String) :
    Keeps (·.threads = threads) (resolveWithin fuel loading name) := by
  induction fuel generalizing loading name with
  | zero =>
      unfold resolveWithin
      refine keeps_bind keeps_get fun machine => ?_
      split
      · exact keeps_pure _
      · exact keeps_guard (keeps_throw _)
  | succ fuel ih =>
      unfold resolveWithin
      refine keeps_bind keeps_get fun machine => ?_
      split
      · exact keeps_pure _
      · refine keeps_guard (keeps_bind (keeps_load_threads name) fun found => ?_)
        cases found with
        | none => exact keeps_fail _
        | some c =>
            refine keeps_bind (keeps_superOf_threads (fun above => ih _ above) _ _) fun super => ?_
            exact keeps_add_threads c super

theorem keeps_resolve_threads (name : String) : Keeps (·.threads = threads) (resolve name) :=
  keeps_bind keeps_get fun _ => keeps_resolveWithin_threads _ _ _

theorem keeps_superOfNew_threads (name : String) (superName : Option String) :
    Keeps (·.threads = threads) (superOfNew name superName) :=
  keeps_bind keeps_get fun _ => keeps_guard (keeps_superOf_threads keeps_resolve_threads _ _)

theorem keeps_define_threads (c : Class) : Keeps (·.threads = threads) (define c) := by
  exact keeps_bind (keeps_superOfNew_threads _ _) fun super => keeps_add_threads c super

theorem keeps_defineParts_threads (parts : ClassParts) :
    Keeps (·.threads = threads) (defineParts parts) := by
  refine keeps_bind (keeps_ofHalt _) fun _ =>
    keeps_bind (keeps_superOfNew_threads _ _) fun super => ?_
  refine keeps_bind (keeps_ofHalt _) fun _ => keeps_bind (keeps_ofHalt _) fun c => ?_
  exact keeps_add_threads c super

end Loading

/-- The built-in classes are defined before anything runs. -/
theorem Machine.threads_withBuiltins (machine : Machine) :
    machine.withBuiltins.threads = machine.threads := by
  have defines : ∀ specs : List Builtin.Spec,
      Exec.Keeps (·.threads = machine.threads) (defineAll specs) := by
    intro specs
    induction specs with
    | nil => exact Exec.keeps_pure _
    | cons spec rest ih =>
        exact Exec.keeps_bind (Loading.keeps_defineParts_threads spec.parts) fun _ => ih
  unfold withBuiltins
  split
  · exact (defines Builtin.all machine rfl).of_ok ‹_›
  · exact (defines Builtin.all machine rfl).of_error ‹_›

end Jvm
