/-
# Jvm.Proofs.Machine.CutShort — a preparation that was cut short is not made up for

A record that has been entered is taken for prepared. So a static field that is unset stays unset
while its class, or any other, is made ready: nothing but an assignment to it fills it. The one
native method that assigns a static field assigns a field of a built-in class.
-/
import Jvm.Proofs.Machine.Preparation

namespace Jvm

set_option autoImplicit false

open Exec Machine

namespace Machine

variable {machine later : Machine} {id : ClassId} {slot : Nat}

/-- A static slot of a class is unset on the current thread. -/
def Unset (id : ClassId) (slot : Nat) (machine : Machine) : Prop :=
  ∃ record, machine.thread.record? id = some record ∧ record.statics[slot]? = some .unset

theorem Unset.still (unset : Unset id slot machine) (still : machine.Still later) :
    Unset id slot later := by
  obtain ⟨record, found, empty⟩ := unset
  refine ⟨record, ?_, empty⟩
  unfold Thread.record? at found ⊢
  rwa [still.records]

/-- Changing the state of a record does not fill it. -/
theorem Unset.setInitState (unset : Unset id slot machine) (other : ClassId) (state : InitState) :
    Unset id slot (machine.updateThread fun thread => thread.setInitState other state) := by
  obtain ⟨record, found, empty⟩ := unset
  have changed := record?_updateRecord machine.thread other
    (fun record => { record with state := state }) (fun _ => rfl) id
  refine ⟨_, changed.trans (by rw [found]; rfl), ?_⟩
  dsimp only
  split <;> exact empty

theorem Unset.ownState (unset : Unset id slot machine) (state : InitState) :
    ∃ record, (machine.updateThread fun thread => thread.setInitState id state).thread.record? id =
      some record ∧ record.state = state ∧ record.statics[slot]? = some .unset := by
  obtain ⟨record, found, empty⟩ := unset
  have changed := record?_updateRecord machine.thread id
    (fun record => { record with state := state }) (fun _ => rfl) id
  have own : record.classId = id := by simpa using List.find?_some found
  refine ⟨{ record with state := state }, changed.trans ?_, rfl, empty⟩
  rw [found, Option.map_some, if_pos own]

theorem Unset.putStatic (unset : Unset id slot machine) {other : ClassId} (apart : other ≠ id)
    (slot' : Nat) (v : Value) :
    Unset id slot (machine.updateThread fun thread => thread.putStatic other slot' v) := by
  obtain ⟨record, found, empty⟩ := unset
  have changed := record?_updateRecord machine.thread other
    (fun record => { record with statics := record.statics.setIfInBounds slot' v }) (fun _ => rfl) id
  refine ⟨_, changed.trans (by rw [found]; rfl), ?_⟩
  have own : record.classId = id := by simpa using List.find?_some found
  dsimp only
  rw [if_neg fun same => apart (same.symm.trans own)]
  exact empty

/-- The slot is unset, and the class that has it is none that every machine starts with. -/
structure Lacking (id : ClassId) (slot : Nat) (machine : Machine) : Prop where
  builtins : machine.HasBuiltins
  unset : Unset id slot machine

theorem Lacking.still (lacking : Lacking id slot machine) (still : machine.Still later) :
    Lacking id slot later :=
  ⟨still.toGrows.hasBuiltins lacking.builtins, lacking.unset.still still⟩

theorem Lacking.setInitState (lacking : Lacking id slot machine) (other : ClassId)
    (state : InitState) :
    Lacking id slot (machine.updateThread fun thread => thread.setInitState other state) :=
  ⟨lacking.builtins, lacking.unset.setInitState other state⟩

theorem Lacking.putStatic (lacking : Lacking id slot machine) {other : ClassId} (apart : other ≠ id)
    (slot' : Nat) (v : Value) :
    Lacking id slot (machine.updateThread fun thread => thread.putStatic other slot' v) :=
  ⟨lacking.builtins, lacking.unset.putStatic apart slot' v⟩

end Machine

section Keeps

variable {id : ClassId} {slot : Nat}

theorem Exec.keeps_lacking {α : Type} {action : Exec α}
    (keeps : ∀ machine : Machine, Keeps machine.Still action) : Keeps (Lacking id slot) action :=
  fun machine lacking => (keeps machine machine (Still.refl machine)).mono
    (fun _ _ still => lacking.still still) fun _ _ still => lacking.still still

namespace Statics

/-- A record is not looked into. -/
theorem ends_prepare_recorded {c : LinkedClass} {machine : Machine} {record : ClassRecord}
    (found : machine.thread.record? c.id = some record) {Stopped : Halt → Machine → Prop} :
    (prepare c).Ends machine (fun state later => state = record.state ∧ later = machine) Stopped := by
  refine ends_bind_thread ?_
  rw [found]
  exact ends_pure ⟨rfl, rfl⟩

theorem keeps_fill_lacking {c : LinkedClass} (apart : c.id ≠ id) (fields : List Field) :
    Keeps (Lacking id slot) (fill c fields) := by
  induction fields with
  | nil => exact keeps_pure _
  | cons field rest ih =>
      unfold fill
      dsimp only
      split
      · refine keeps_bind (keeps_lacking fun _ => keeps_still fun _ => keeps_firstValue c field)
          fun v => ?_
        exact keeps_bind (keeps_modify fun machine lacking => lacking.putStatic apart field.slot v)
          fun _ => ih
      · exact ih

/-- A class that is prepared anew had no record, so it is another one. -/
theorem keeps_prepare_lacking (c : LinkedClass) : Keeps (Lacking id slot) (prepare c) := by
  intro machine lacking
  refine ends_bind_thread ?_
  split
  · exact ends_pure lacking
  · rename_i absent
    obtain ⟨record, found, empty⟩ := lacking.unset
    have apart : c.id ≠ id := fun same => by
      rw [same, found] at absent
      cases absent
    have fills : Keeps (Lacking id slot) (fill c c.fields >>= fun _ => pure InitState.prepared) :=
      keeps_bind (keeps_fill_lacking apart c.fields) fun _ => keeps_pure _
    have other : ¬ (c.id == id) = true := by simpa using apart
    refine ends_bind_modify (fills _ ⟨lacking.builtins, record, ?_, empty⟩)
    exact (List.find?_cons_of_neg (p := fun record : ClassRecord => record.classId == id) other).trans
      found

end Statics

namespace Native

variable (foreign : ∀ c ∈ builtinClasses, c.id ≠ id)

include foreign

theorem keeps_storeOutput_lacking : Keeps (Lacking id slot) storeOutput := by
  intro machine lacking
  refine (ends_builtin _).before (fun system _ ended => ?_) fun _ _ ended => by rw [ended.1]; exact lacking
  obtain ⟨rfl, found⟩ := ended
  refine (ends_builtin _).before (fun stream _ ended => ?_) fun _ _ ended => by rw [ended.1]; exact lacking
  obtain ⟨rfl, -⟩ := ended
  have apart : system.id ≠ id := foreign system (lacking.builtins.mem (by decide +kernel) found)
  have allocates : Keeps (Lacking id slot) (allocate stream) :=
    keeps_lacking fun _ => keeps_still fun _ => keeps_allocate stream
  refine allocates.before lacking (fun ref allocated lacking => ?_) fun _ _ lacking => lacking
  refine (Statics.keeps_prepare_lacking system).before lacking (fun _ prepared lacking => ?_)
    fun _ _ lacking => lacking
  split
  · exact ends_modify (lacking.putStatic apart _ _)
  · exact ends_throw lacking

theorem keeps_run_lacking (native : Native) (arguments : List Value) :
    Keeps (Lacking id slot) (native.run arguments) := by
  cases native with
  | newline =>
      exact keeps_bind (keeps_lacking fun _ => keeps_still fun _ => keeps_print _)
        fun _ => keeps_pure _
  | print kind endsLine =>
      refine keeps_bind (keeps_lacking fun _ => keeps_still fun _ => keeps_printedText _ _)
        fun text => ?_
      exact keeps_bind (keeps_lacking fun _ => keeps_still fun _ => keeps_print _)
        fun _ => keeps_pure _
  | openOutput => exact keeps_bind (keeps_storeOutput_lacking foreign) fun _ => keeps_pure _
  | fail => exact keeps_fail _
  | _ => exact keeps_pure _

end Native

namespace Initialization

theorem keeps_setState_lacking (other : ClassId) (state : InitState) :
    Keeps (Lacking id slot) (setState other state) :=
  keeps_modify fun _ lacking => lacking.setInitState other state

variable (foreign : ∀ c ∈ builtinClasses, c.id ≠ id)

include foreign

theorem keeps_runNative_lacking (c : LinkedClass) (native : Option Native) :
    Keeps (Lacking id slot) (runNative c native) := by
  unfold runNative
  split
  · exact keeps_fail _
  · exact keeps_bind (Native.keeps_run_lacking foreign _ []) fun _ => keeps_pure _

theorem keeps_start_lacking (c : LinkedClass) : Keeps (Lacking id slot) (start c) := by
  have fails {α : Type} {action : Exec α} (keeps : Keeps (Lacking id slot) action) :
      Keeps (Lacking id slot) (failing c.id action) :=
    keeps_onHalt keeps fun machine lacking => lacking.setInitState c.id .failed
  refine keeps_bind (keeps_lacking fun _ => keeps_still fun _ => keeps_trace _ _) fun _ => ?_
  split
  · exact keeps_bind (keeps_setState_lacking c.id .ready) fun _ => keeps_pure _
  · rename_i method _
    refine keeps_bind (keeps_setState_lacking c.id .running) fun _ => ?_
    split
    · refine keeps_bind (fails (keeps_runNative_lacking foreign c method.native)) fun _ => ?_
      exact keeps_bind (keeps_setState_lacking c.id .ready) fun _ => keeps_pure _
    · refine keeps_bind (fails (keeps_lacking fun _ => ?_)) fun _ => keeps_pure _
      exact keeps_pushFrame_still _

/-- No class becomes ready by filling a field that was left unset. -/
theorem keeps_initializeChain_lacking (chain : List ClassId) :
    Keeps (Lacking id slot) (initializeChain chain) := by
  induction chain with
  | nil => exact keeps_pure _
  | cons other supers ih =>
      refine keeps_bind (keeps_classOf other) fun c => ?_
      refine keeps_bind (Statics.keeps_prepare_lacking c) fun state => ?_
      cases state with
      | ready => exact keeps_pure _
      | running => exact keeps_pure _
      | failed => exact keeps_fail _
      | prepared =>
          refine keeps_bind (keeps_onHalt ih fun machine lacking =>
            lacking.setInitState other .failed) fun ready => ?_
          split
          · exact keeps_start_lacking foreign c
          · exact keeps_pure _

end Initialization

end Keeps

/-! ## The class itself -/

namespace Initialization

/-- A class that is ready, although one of its static fields is unset. -/
def ReadyWithout (id : ClassId) (slot : Nat) (machine : Machine) : Prop :=
  ∃ record, machine.thread.record? id = some record ∧ record.state = .ready ∧
    record.statics[slot]? = some .unset

variable {c : LinkedClass} {slot : Nat} {machine : Machine}
  (foreign : ∀ d ∈ builtinClasses, d.id ≠ c.id)

include foreign

theorem ends_start_lacking (lacking : Lacking c.id slot machine) :
    (start c).Ends machine (fun ready later => ready = true → ReadyWithout c.id slot later)
      fun _ _ => True := by
  have becomes : ∀ later, Lacking c.id slot later →
      (setState c.id .ready >>= fun _ => pure true : Exec Bool).Ends later
        (fun ready later => ready = true → ReadyWithout c.id slot later) fun _ _ => True :=
    fun _ lacking => ends_bind_modify (ends_pure fun _ => lacking.unset.ownState .ready)
  have traces : Keeps (Lacking c.id slot) (Exec.trace (·.traceInitialization) s!"[Initializing {c.name}]") :=
    keeps_lacking fun _ => keeps_still fun _ => keeps_trace _ _
  refine traces.before lacking (fun _ traced lacking => ?_) fun _ _ _ => trivial
  split
  · exact becomes traced lacking
  · rename_i method _
    refine (keeps_setState_lacking c.id .running).before lacking (fun _ running lacking => ?_)
      fun _ _ _ => trivial
    split
    · have runs : Keeps (Lacking c.id slot) (failing c.id (runNative c method.native)) := by
        refine keeps_onHalt ?_ fun machine lacking => lacking.setInitState c.id .failed
        exact keeps_runNative_lacking foreign c method.native
      exact runs.before lacking (fun _ ran lacking => becomes ran lacking) fun _ _ _ => trivial
    · refine (keeps_true _).before trivial (fun _ _ _ => ends_pure ?_) fun _ _ _ => trivial
      exact fun never => by cases never

/-- A class whose preparation was cut short becomes ready all the same. -/
theorem ends_ensureReady_lacking (named : machine.classOf? c.id = some c) {record : ClassRecord}
    (found : machine.thread.record? c.id = some record) (prepared : record.state = .prepared)
    (lacking : Lacking c.id slot machine) :
    (ensureReady c).Ends machine (fun ready later => ready = true → ReadyWithout c.id slot later)
      fun _ _ => True := by
  refine ends_bind_classOf (fun d found' => ?_) fun _ => trivial
  obtain rfl := Option.some.inj (named.symm.trans found')
  refine (Statics.ends_prepare_recorded found).bind fun state later ended => ?_
  obtain ⟨rfl, rfl⟩ := ended
  rw [prepared]
  refine (keeps_onHalt (keeps_initializeChain_lacking foreign c.supers) fun machine lacking =>
    lacking.setInitState c.id .failed).before lacking (fun ready later lacking => ?_)
    fun _ _ _ => trivial
  cases ready with
  | true => exact ends_start_lacking foreign lacking
  | false => exact ends_pure fun never => by cases never

end Initialization

end Jvm
