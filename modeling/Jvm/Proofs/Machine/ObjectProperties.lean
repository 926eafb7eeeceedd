/-
# Jvm.Proofs.Machine.ObjectProperties — properties of the objects of a machine

Objects are made by `new`, for an interned string and for the output stream, and their slots are
written by assignments to fields. All else leaves them alone. A property that speaks only of objects
and their classes (`ObjectProperty`) is therefore kept by everything that is done between two
instructions (`ObjectProperty.basics`), if it is kept when a string is interned and when a stream is
made, and it lasts if steps keep it (`ObjectProperty.lasting`).
-/
import Jvm.Proofs.Machine.Basics
import Jvm.Proofs.Machine.Granted
import Jvm.Proofs.Machine.Objects

namespace Jvm

set_option autoImplicit false

open Exec Machine

namespace Machine

/-- What the classes and the threads of a session are like: ids and numbers tell them apart, the
built-in classes are there, and every class is linked to a superclass that is there. -/
structure Founded (machine : Machine) : Prop where
  identified : machine.Identified
  sourced : machine.Sourced
  builtins : machine.HasBuiltins
  formed : machine.Formed
  numbered : machine.Numbered

variable {machine later : Machine}

theorem Formed.of_classes (formed : machine.Formed) (classes : later.classes = machine.classes) :
    later.Formed := by
  refine ⟨?_, ?_⟩
  · unfold findClass?
    rw [classes]
    exact formed.rooted
  · rw [classes]
    exact formed.seated

theorem Founded.grows (founded : machine.Founded) (grows : machine.Grows later)
    (formed : later.Formed) : later.Founded :=
  ⟨grows.identified founded.identified, grows.sourced founded.sourced,
    grows.hasBuiltins founded.builtins, formed, founded.numbered.grows grows⟩

theorem Founded.withThreads (founded : machine.Founded) {thread : Thread} {parked : List Thread}
    (numbered : { machine with thread := thread, parked := parked }.Numbered) :
    { machine with thread := thread, parked := parked }.Founded :=
  ⟨dictionary_identified.threads machine thread parked founded.identified, founded.sourced,
    founded.builtins, ⟨founded.formed.rooted, founded.formed.seated⟩, numbered⟩

/-- Classes are found by the ids of the objects that fit them. -/
theorem Founded.classOf?_of_fits (founded : machine.Founded) {object : Object} {c : LinkedClass}
    (known : c ∈ machine.classes) (fits : object.Fits c) :
    machine.classOf? object.classId = some c := by
  rw [fits.classId]
  exact founded.identified.classOf? known

/-- Something else than the objects of the current thread has changed. -/
theorem Founded.beside (founded : machine.Founded) (change : Thread → Thread)
    (number : (change machine.thread).number = machine.thread.number)
    (heap : (change machine.thread).heap = machine.thread.heap) :
    (machine.updateThread change).Founded ∧
      ∀ ref, (machine.updateThread change).object? ref = machine.object? ref := by
  have numbers : (machine.updateThread change).threads.map (·.number) =
      machine.threads.map (·.number) := numbers_of_parked number rfl
  exact ⟨founded.withThreads (founded.numbered.of_perm (.of_eq numbers.symm)),
    object?_eq_of_heap number heap rfl⟩

theorem classes_updateHeap (machine : Machine) (number : Nat) (change : Heap → Heap) :
    (machine.updateHeap number change).classes = machine.classes := by
  unfold updateHeap
  split <;> rfl

theorem Founded.addObject (founded : machine.Founded) (c : LinkedClass) :
    (machine.updateThread fun thread => thread.addObject c).Founded :=
  founded.grows ((Grows.refl machine).step rfl rfl rfl rfl rfl rfl) (founded.formed.of_classes rfl)

theorem Founded.withString (founded : machine.Founded) (c : LinkedClass) (text : String) :
    (machine.withString c text).Founded :=
  founded.grows ((Grows.refl machine).step rfl rfl rfl rfl rfl rfl) (founded.formed.of_classes rfl)

/-- A new string has the text, and the objects that were there before are as they were. -/
theorem object?_withString (machine : Machine) (c : LinkedClass) (text : String) (ref : Ref) :
    (machine.withString c text).object? ref =
      if ref = machine.thread.nextRef then
        some ((Object.ofClass c).write c.firstHiddenSlot (.text (some text)))
      else machine.object? ref := by
  have written := updateHeap_own (machine.updateThread fun thread => thread.addObject c) fun heap =>
    heap.putField machine.thread.nextRef.index c.firstHiddenSlot (.text (some text))
  have beside : (machine.withString c text).object? ref =
      ((machine.updateThread fun thread => thread.addObject c).updateHeap machine.thread.nextRef.heap
        fun heap => heap.putField machine.thread.nextRef.index c.firstHiddenSlot
          (.text (some text))).object? ref := by
    refine Eq.trans ?_ (congrArg (·.object? ref) written).symm
    apply object?_eq_of_heap <;> rfl
  rw [beside, object?_putField, object?_addObject]
  by_cases new : ref = machine.thread.nextRef
  · simp only [if_pos new, Option.map_some]
  · simp only [if_neg new, Option.map_id']

end Machine

/-! ## Loading -/

namespace Loading

theorem keeps_resolve_formed (name : String) : Keeps Formed (resolve name) :=
  fun machine formed =>
    have ended : (Request.resolve name).run.Ends machine _ _ :=
      Request.ends_run_resolve rfl formed.rooted
    ended.mono (fun _ _ ended => ended.elim fun _ joins => joins.formed formed)
      fun _ _ ended => ended.elim fun _ joins => joins.formed formed

theorem keeps_define_formed (c : Class) : Keeps Formed (define c) :=
  fun machine formed =>
    have ended : (Request.define c).run.Ends machine _ _ :=
      Request.ends_run_definition rfl formed.rooted
    ended.mono (fun _ _ ended => ended.elim fun _ defined => defined.formed formed)
      fun _ _ ended => ended.elim fun _ joins => joins.formed formed

end Loading

/-! ## Properties of objects -/

/-- A property of the objects and their classes, which is kept when a string is interned or an
output stream is made. -/
structure ObjectProperty (P : Machine → Prop) : Prop where
  founded : ∀ {machine : Machine}, P machine → machine.Founded
  stays : ∀ {before after : Machine}, P before → after.Founded → before.classes ⊆ after.classes →
    (∀ ref object, after.object? ref = some object → before.object? ref = some object) → P after
  interns : ∀ text : String, Keeps P (intern text)
  streams : ∀ {machine : Machine} {c : LinkedClass}, P machine →
    machine.findClass? Builtin.printStream.name = some c →
      (allocate c).Ends machine (fun _ => P) fun _ => P

namespace ObjectProperty

variable {P : Machine → Prop}

/-- Classes have been added, and no object has been touched. -/
theorem grows (property : ObjectProperty P) {machine later : Machine} (holds : P machine)
    (grows : machine.Grows later) (formed : later.Formed)
    (objects : ∀ ref, later.object? ref = machine.object? ref) : P later :=
  property.stays holds ((property.founded holds).grows grows formed) (fun _ known => grows.mem known)
    fun ref _ found => (objects ref).symm.trans found

/-- Something else than the objects of the current thread has changed. -/
theorem beside (property : ObjectProperty P) {machine : Machine} (holds : P machine)
    (change : Thread → Thread) (number : (change machine.thread).number = machine.thread.number)
    (heap : (change machine.thread).heap = machine.thread.heap) :
    P (machine.updateThread change) := by
  obtain ⟨founded, objects⟩ := (property.founded holds).beside change number heap
  exact property.stays holds founded (fun _ known => known)
    fun ref _ found => (objects ref).symm.trans found

/-- What adds classes and leaves the threads alone. -/
theorem keeps_loading (property : ObjectProperty P) {α : Type} {action : Exec α}
    (grows : ∀ machine : Machine, Keeps machine.Steady action) (formed : Keeps Formed action)
    (threads : ∀ threads, Keeps (·.threads = threads) action) : Keeps P action := by
  intro machine holds
  have ended := ((grows machine machine (Steady.refl machine)).and
    (formed machine (property.founded holds).formed)).and (threads machine.threads machine rfl)
  have stays : ∀ later : Machine, (machine.Steady later ∧ later.Formed) ∧
      later.threads = machine.threads → P later := by
    rintro later ⟨⟨steady, formed⟩, threads⟩
    obtain ⟨thread, parked⟩ := List.cons.inj threads
    exact property.grows holds steady.toGrows formed
      (object?_eq_of_heap (congrArg _ thread) (congrArg _ thread) parked)
  exact ended.mono (fun _ => stays) fun _ => stays

theorem keeps_resolve (property : ObjectProperty P) (name : String) :
    Keeps P (Loading.resolve name) :=
  property.keeps_loading (fun _ => Loading.keeps_resolve name) (Loading.keeps_resolve_formed name)
    fun _ => Loading.keeps_resolve_threads name

theorem keeps_define (property : ObjectProperty P) {source : String} {bytes : List UInt8} {c : Class}
    (read : Class.ofBytes source bytes = .ok c) : Keeps P (Loading.define c) :=
  property.keeps_loading (fun _ => Loading.keeps_define (.inl ⟨source, bytes, read⟩))
    (Loading.keeps_define_formed c) fun _ => Loading.keeps_define_threads c

/-- A property of objects is kept by the simplest actions. -/
theorem basics (property : ObjectProperty P) : Basics P where
  threads holds change number heap _ := property.beside holds change number heap
  traces wanted line := by
    refine keeps_modify fun machine holds => ?_
    split
    · exact property.grows holds ((Grows.refl machine).step rfl rfl rfl rfl rfl rfl)
        ((property.founded holds).formed.of_classes rfl) fun _ => rfl
    · exact holds
  resolve := property.keeps_resolve
  interns := property.interns
  streams := property.streams

/-! ### Sessions -/

/-- A thread without objects is created. -/
theorem create (property : ObjectProperty P) {machine : Machine} (holds : P machine) (name : String)
    {heap : Heap} (empty : heap.objects = #[]) :
    P { machine with
      thread := .start (machine.parked.length + 1) name .new heap
      parked := machine.thread :: machine.parked } := by
  have founded := property.founded holds
  have numbered := founded.numbered.create name heap
  refine property.stays holds (founded.withThreads numbered) (fun _ known => known)
    fun ref object found => ?_
  obtain ⟨thread, member, number, held⟩ := numbered.object?_eq_some.mp found
  rcases List.mem_cons.mp member with rfl | old
  · have none : heap.objects[ref.index]? = some object := held
    rw [empty] at none
    cases none
  · exact founded.numbered.object?_eq_some.mpr ⟨thread, old, number, held⟩

/-- Another thread becomes current. -/
theorem switch (property : ObjectProperty P) {machine : Machine} (holds : P machine)
    {thread : Thread} (waits : thread ∈ machine.parked) :
    P { machine with
      thread := thread
      parked := machine.thread :: machine.parked.filter (·.number != thread.number) } := by
  have founded := property.founded holds
  have perm : machine.threads.Perm { machine with
      thread := thread
      parked := machine.thread :: machine.parked.filter (·.number != thread.number) }.threads :=
    founded.numbered.perm_switch waits
  refine property.stays holds (founded.withThreads (founded.numbered.of_perm (perm.map _)))
    (fun _ known => known) fun ref object found => ?_
  rwa [object?_eq_of_perm founded.numbered perm] at found

end ObjectProperty

namespace Machine

variable {machine : Machine}

/-- At the start there are no objects. -/
theorem founded_start {options : Options} {files : Files}
    (started : Machine.start options files = .ok machine) :
    machine.Founded ∧ ∀ ref, machine.object? ref = none := by
  have identified := identified_start started
  have sourced := sourced_start started
  have builtins := dictionary_hasBuiltins.start started
  have formed := (formed_start started).1
  obtain ⟨heap, empty, rfl⟩ := exists_start_empty started
  have blank : (blank options files heap).Numbered :=
    ⟨List.nodup_singleton _, fun thread member => by
      obtain rfl := List.mem_singleton.mp member
      exact Nat.le_refl _⟩
  have numbered := blank.grows (steady_withBuiltins (Machine.blank options files heap)).toGrows
  refine ⟨⟨identified, sourced, builtins, formed, numbered⟩, fun ref => ?_⟩
  refine Option.eq_none_iff_forall_not_mem.mpr fun object found => ?_
  obtain ⟨thread, member, -, held⟩ := numbered.object?_eq_some.mp found
  rw [threads_withBuiltins] at member
  obtain rfl := List.mem_singleton.mp member
  have none : heap.objects[ref.index]? = some object := held
  rw [empty] at none
  cases none

end Machine

namespace ObjectProperty

variable {P : Machine → Prop}

/-- A property of objects that steps keep is kept by calls, and lasts. -/
theorem lasting (property : ObjectProperty P)
    (start : ∀ machine : Machine, machine.Founded → (∀ ref, machine.object? ref = none) → P machine)
    (step : Keeps P step) : Lasting P where
  start started := start _ (founded_start started).1 (founded_start started).2
  kept := property.basics.kept step
  resolve := property.keeps_resolve
  define := property.keeps_define
  create _ name _ holds empty := property.create holds name empty
  switch _ _ holds waits := property.switch holds waits

/-- A property of objects that granted calls keep endures. -/
theorem endures (property : ObjectProperty P) {Granted : Machine → Method → List Value → Prop}
    (start : ∀ machine : Machine, machine.Founded → (∀ ref, machine.object? ref = none) → P machine)
    (call : ∀ {machine passed : Machine} {method : Method} {arguments : List Value}, P machine →
      Granted machine method arguments → Call.Passes method arguments machine passed → P passed) :
    Endures Granted P where
  start started := start _ (founded_start started).1 (founded_start started).2
  call holds _ granted passes := call holds granted passes
  intern := property.interns
  resolve := property.keeps_resolve
  define := property.keeps_define
  create name holds reserved := property.create holds name (objects_reserve reserved)
  switch holds waits := property.switch holds waits

end ObjectProperty

end Jvm
