/-
# Jvm.Proofs.Machine.TwinParts — the parts of instructions on twins

On twins, objects are made, read and written, strings are interned, classes are prepared and made
ready, and native methods run with the same outcome on both machines, and what they answer the
thread holds. Only the classes that an object, a frame or another class refers to are looked up by
their ids, and these both machines know.
-/
import Jvm.Proofs.Machine.Twins

namespace Jvm

set_option autoImplicit false

open Exec Machine

namespace Twins

variable {base : Machine} {twins : Twins base}

/-! ## Objects and strings -/

section Memory

variable {c : LinkedClass} {ref : Ref} {v : Value}

theorem agree_allocate (knows : twins.Knows c.id) :
    Agree (allocate c) twins fun ref later => later.Holds (.ref (some ref)) := by
  unfold Agree allocate
  rw [twins.same]
  by_cases room : twins.one.thread.heap.hasRoom c = true
  · rw [if_pos room]
    refine .inl ⟨_, twins.withThread _ twins.one.log twins.two.log
      (twins.sound.addObject knows room), rfl, ?_, onward_withThread (Thread.extends_addObject _ c),
      Thread.holds_nextRef _ c⟩
    rw [if_pos room]
    show EStateM.Result.ok _ { twins.two with thread := twins.two.thread.addObject c } = _
    rw [twins.same]
    rfl
  · rw [if_neg room, if_neg room]
    exact .inr ⟨_, twins, rfl, rfl, .refl twins⟩

/-- An object of the thread is found by its reference. -/
theorem exists_object (holds : twins.Holds (.ref (some ref))) :
    ∃ object ∈ twins.one.thread.heap.objects, twins.one.object? ref = some object ∧
      twins.two.object? ref = some object := by
  obtain ⟨heap, index⟩ := holds
  refine ⟨_, Array.getElem_mem index, ?_, ?_⟩
  · unfold Machine.object? threadOf?
    rw [if_pos heap.symm]
    exact Array.getElem?_eq_getElem index
  · unfold Machine.object? threadOf?
    rw [twins.same, if_pos heap.symm]
    exact Array.getElem?_eq_getElem index

theorem agree_object (holds : twins.Holds (.ref (some ref))) :
    Agree (object ref) twins fun object later => later = twins ∧
      object ∈ twins.one.thread.heap.objects := by
  obtain ⟨object, member, one, two⟩ := exists_object holds
  have found {machine : Machine} (known : machine.object? ref = some object) :
      Exec.object ref machine = .ok object machine := by
    unfold Exec.object
    rw [bind_get, known]
    rfl
  exact .inl ⟨object, twins, found one, found two, .refl twins, rfl, member⟩

theorem agree_field (holds : twins.Holds (.ref (some ref))) (slot : Nat) :
    Agree (field ref slot) twins fun v later => later.Holds v := by
  refine (agree_object holds).bind fun object later _ ended => ?_
  obtain ⟨rfl, member⟩ := ended
  refine agree_pure ?_
  rw [Array.getD_eq_getD_getElem?]
  cases found : object.fields[slot]? with
  | none => trivial
  | some v => exact later.sound.closed.fields object member v (Array.mem_of_getElem? found)

theorem agree_putField (holds : twins.Holds (.ref (some ref))) (slot : Nat) (held : twins.Holds v) :
    Agree (putField ref slot v) twins fun _ _ => True := by
  have changed {machine : Machine} (number : machine.thread.number = ref.heap) :
      putField ref slot v machine = .ok () { machine with
        thread := { machine.thread with heap := machine.thread.heap.putField ref.index slot v } } := by
    show EStateM.Result.ok () (machine.updateHeap ref.heap _) = _
    unfold updateHeap
    rw [if_pos number]
  refine .inl ⟨(), twins.withThread _ twins.one.log twins.two.log
    (twins.sound.putField ref.index slot held), changed holds.1.symm, ?_,
    onward_withThread (Thread.extends_putField _ ref.index slot v), trivial⟩
  rw [changed (by rw [twins.same, ← holds.1])]
  show _ = EStateM.Result.ok () { twins.two with thread := { twins.one.thread with
    heap := twins.one.thread.heap.putField ref.index slot v } }
  rw [twins.same]

theorem agree_intern (text : String) :
    Agree (intern text) twins fun ref later => later.Holds (.ref (some ref)) := by
  refine agree_bind_thread ?_
  cases found : twins.one.thread.interned? text with
  | some ref =>
      exact agree_pure (twins.sound.closed.strings (text, ref) (StringTable.mem_of_find? found))
  | none =>
      refine (agree_builtin (by decide +kernel)).bind fun c later _ ended => ?_
      obtain ⟨rfl, shared, -⟩ := ended
      refine (agree_allocate ⟨c, shared, rfl⟩).bind fun ref made _ holds => ?_
      have textual : made.Holds (.text (some text)) := trivial
      refine (agree_putField holds _ textual).bind fun _ written onward _ => ?_
      have holds := holds.onward onward
      refine (agree_updateThread ?_ (.of_heap rfl rfl)).bind fun _ entered onward _ => ?_
      · exact written.sound.addString text holds
      · exact agree_pure (holds.onward onward)

end Memory

/-- A constant that is loaded is a number, or a string that is interned. -/
theorem agree_loadedValue {pool : Pool} {index : Int} {wide : Bool} {constant : Pool.Loadable}
    (loads : pool.loadable index wide = .ok constant) :
    Agree (loadedValue constant) twins fun v later => later.Holds v := by
  cases constant with
  | string text => exact (agree_intern text).bind fun ref later _ holds => agree_pure holds
  | value v =>
      refine agree_pure (Value.IsPlain.within ?_)
      unfold Pool.loadable at loads
      split at loads
      · cases loads
      · split at loads
        all_goals first
          | cases loads; exact fun _ => nofun
          | (split at loads <;> cases loads)
          | cases loads

/-! ## Static fields -/

theorem agree_firstValue (c : LinkedClass) (field : Field) :
    Agree (Statics.firstValue c field) twins fun v later => later.Holds v := by
  unfold Statics.firstValue
  dsimp only
  split
  · exact agree_pure (Value.isPlain_zero _).within
  · refine (agree_ofFault _).bind fun constant later _ ended => ?_
    obtain ⟨loads, rfl⟩ := ended
    refine (agree_loadedValue loads).bind fun v later _ holds => ?_
    exact agree_guard fun _ => agree_pure holds

theorem agree_fill (c : LinkedClass) (fields : List Field) :
    Agree (Statics.fill c fields) twins fun _ _ => True := by
  induction fields generalizing twins with
  | nil => exact agree_pure trivial
  | cons field rest ih =>
      unfold Statics.fill
      dsimp only
      split
      · refine (agree_firstValue c field).bind fun v later _ holds => ?_
        refine (agree_updateThread ?_ (.of_heap rfl rfl)).bind fun _ _ _ _ => ih
        exact later.sound.putStatic c.id field.slot holds
      · exact ih

theorem agree_prepare (c : LinkedClass) :
    Agree (Statics.prepare c) twins fun _ _ => True := by
  refine agree_bind_thread ?_
  split
  · exact agree_pure trivial
  · have sound : Thread.Sound twins.Knows { twins.one.thread with
        records := ⟨c.id, .prepared, Array.replicate c.staticCount .unset⟩ ::
          twins.one.thread.records } := by
      refine twins.sound.withRecords (List.forall_mem_cons.mpr
        ⟨fun v member => ?_, twins.sound.closed.statics⟩)
      obtain rfl : v = .unset := (Array.mem_replicate.mp member).2
      exact Thread.holds_unset _
    refine (agree_updateThread ?_ (.of_heap rfl rfl)).bind fun _ _ _ _ => ?_
    · exact sound
    exact (agree_fill c c.fields).bind fun _ _ _ _ => agree_pure trivial

theorem agree_read (id : ClassId) (slot : Nat) :
    Agree (Statics.read id slot) twins fun v later => later.Holds v := by
  refine agree_bind_thread ?_
  cases found : twins.one.thread.record? id with
  | none => exact agree_violate _
  | some record =>
      refine agree_pure ?_
      rw [Array.getD_eq_getD_getElem?]
      cases held : record.statics[slot]? with
      | none => trivial
      | some v =>
          exact twins.sound.closed.statics record (List.mem_of_find?_eq_some found) v
            (Array.mem_of_getElem? held)

theorem agree_write (id : ClassId) (slot : Nat) {v : Value} (held : twins.Holds v) :
    Agree (Statics.write id slot v) twins fun _ _ => True := by
  refine (agree_updateThread ?_ (.of_heap rfl rfl)).mono fun _ _ _ _ => trivial
  exact twins.sound.putStatic id slot held

/-! ## Native methods -/

theorem text?_eq {ref : Ref} (holds : twins.Holds (.ref (some ref))) :
    twins.two.text? ref = twins.one.text? ref := by
  obtain ⟨object, -, one, two⟩ := exists_object holds
  have listed : stringClass ∈ builtinClasses.map (·.name) := by decide +kernel
  obtain ⟨c, member, name⟩ := List.mem_map.mp listed
  have found := twins.builtins c member
  rw [name] at found
  unfold text?
  rw [one, two, twins.foresees.known found, twins.foresees'.known found]

theorem agree_referenceText {object : Option Ref} (holds : twins.Holds (.ref object)) :
    Agree (Native.referenceText object) twins fun _ later => later = twins := by
  cases object with
  | none => exact agree_pure rfl
  | some ref =>
      refine agree_bind_get (by rw [text?_eq holds]) ?_
      split
      · exact agree_pure rfl
      · refine (agree_object holds).bind fun object later _ ended => ?_
        obtain ⟨rfl, -⟩ := ended
        exact agree_guard fun _ => agree_pure rfl

theorem agree_printedText (kind : PrintKind) {v : Value} (holds : twins.Holds v) :
    Agree (Native.printedText kind v) twins fun _ later => later = twins := by
  unfold Native.printedText
  split <;> first | exact agree_pure rfl | exact agree_referenceText holds

theorem agree_print (text : String) : Agree (print text) twins fun _ _ => True := by
  refine (agree_updateThread ?_ (.of_heap rfl rfl)).mono fun _ _ _ _ => trivial
  exact twins.sound.beside rfl rfl rfl rfl rfl

theorem agree_storeOutput : Agree Native.storeOutput twins fun _ _ => True := by
  refine (agree_builtin (by decide +kernel)).bind fun system later _ ended => ?_
  obtain ⟨rfl, -, -⟩ := ended
  refine (agree_builtin (by decide +kernel)).bind fun stream later _ ended => ?_
  obtain ⟨rfl, shared, -⟩ := ended
  refine (agree_allocate ⟨stream, shared, rfl⟩).bind fun ref made _ holds => ?_
  refine (agree_prepare system).bind fun _ prepared onward _ => ?_
  split
  · exact agree_write _ _ (holds.onward onward)
  · exact agree_violate _

/-- A native method that is bound to a method of a class answers nothing or a number. -/
theorem agree_native {native : Native} {type : BasicType} (fits : native.fits type = true)
    {arguments : List Value} (held : ∀ v ∈ arguments, twins.Holds v) :
    Agree (native.run arguments) twins fun answer later => ∀ v ∈ answer, later.Holds v := by
  cases native with
  | doNothing => exact agree_pure nofun
  | newline => exact (agree_print _).bind fun _ _ _ _ => agree_pure nofun
  | print kind endsLine =>
      have holds : twins.Holds (Native.argument arguments 1) := by
        unfold Native.argument
        rw [List.getD_eq_getElem?_getD]
        cases found : arguments[1]? with
        | none => trivial
        | some v => exact held v (List.mem_of_getElem? found)
      refine (agree_printedText kind holds).bind fun text later _ same => ?_
      exact (agree_print _).bind fun _ _ _ _ => agree_pure nofun
  | openOutput => exact agree_storeOutput.bind fun _ _ _ _ => agree_pure nofun
  | abs | max | min =>
      refine agree_pure fun v member => ?_
      obtain rfl := Option.some.inj member
      trivial
  | answer | firstArgument | argumentCount | fail => cases type <;> cases fits

end Twins

end Jvm
