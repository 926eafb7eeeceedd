/-
# Jvm.Proofs.Call.Interning — texts and their interned strings

A thread is asked for the string of a text by interning it, by looking it up and by loading a
constant, which is what `ldc` and the initial values of static fields do. Whatever a session does in
between, and whichever pools the constants come from, a thread has one string for each text and one
text for each string: what has once been answered for a text is answered for it from then on, and
for no other text. A request that fails has changed nothing, and a table has as many entries as
there are texts that have been interned (`interning_is_bijective`).
-/
import Jvm.Proofs.Call.Strings
import Jvm.Proofs.ClassFile.Pools
import Jvm.Proofs.Machine.Interning
import Jvm.Proofs.Pool.Dereference
import Mathlib.Data.Finset.Option
import Mathlib.Logic.Relation

namespace Jvm

set_option autoImplicit false

open Exec Machine
open Relation (ReflTransGen)

/-- What the current thread can be asked for: the string of a text, if need be a new one; the string
of a text, if there is one; the string of a constant of a pool. -/
inductive StringRequest where
  | intern (text : String)
  | lookup (text : String)
  | load (pool : Pool) (terminated : pool.Terminated) (index : Int)

namespace StringRequest

/-- The text that is asked for, which ends before its first zero byte. A constant of another kind is
no text. -/
def text? : StringRequest → Option String
  | .intern text => some (Text.upToNul text)
  | .lookup text => some (Text.upToNul text)
  | .load pool _ index =>
      match pool.loadable index false with
      | .ok (.string text) => some (Text.upToNul text)
      | _ => none

/-- The request does no more than look. -/
def isLookup : StringRequest → Bool
  | .lookup _ => true
  | _ => false

def run : StringRequest → Exec (Option Ref)
  | .intern text => return some (← Exec.intern (Text.upToNul text))
  | .lookup text => return (← Exec.thread).interned? (Text.upToNul text)
  | .load pool _ index => do
      match ← Exec.loadedValue (← Exec.ofFault (pool.loadable index false)) with
      | .ref ref => return ref
      | _ => return none

/-- The text that is in the table because the request has been served. -/
def enters (request : StringRequest) (machine : Machine) : Finset String :=
  match request.run machine with
  | .ok _ _ => if request.isLookup then ∅ else request.text?.toFinset
  | .error _ _ => ∅

/-- The machine after some requests have been served or have failed, one after the other. -/
def served (requests : List StringRequest) (machine : Machine) : Machine :=
  requests.foldl (fun machine request => request.run.after machine) machine

/-- The texts that are in the table because some requests have been served. -/
def entered : List StringRequest → Machine → Finset String
  | [], _ => ∅
  | request :: rest, machine => request.enters machine ∪ entered rest (request.run.after machine)

end StringRequest

namespace Machine

/-- What can happen next: a part of a session, a machine that a call passes through, a step, an
initial value, a request for a string. -/
inductive Moves (machine : Machine) : Machine → Prop
  | proceeds {later : Machine} (proceeds : Proceeds (fun _ _ _ => True) machine later) :
      Moves machine later
  | passes {method : Method} {arguments : List Value} {passed : Machine}
      (passes : Call.Passes method arguments machine passed) : Moves machine passed
  | steps : Moves machine (step.after machine)
  | initial (c : LinkedClass) (field : Field) :
      Moves machine ((Statics.firstValue c field).after machine)
  | serves (request : StringRequest) : Moves machine (request.run.after machine)

/-- Whatever happens, in any order. -/
abbrev Onward : Machine → Machine → Prop := ReflTransGen Moves

/-- A machine of any session, with requests for strings among its parts. -/
def Comes (machine : Machine) : Prop :=
  ∃ (options : Options) (files : Files) (start : Machine),
    Machine.start options files = .ok start ∧ start.Onward machine

variable {first machine later : Machine}

/-! ## What is remembered -/

theorem interned_start {options : Options} {files : Files}
    (started : Machine.start options files = .ok machine) : machine.Interned := by
  obtain ⟨founded, -⟩ := founded_start started
  obtain ⟨heap, rfl⟩ := exists_start started
  have tables : (blank options files heap).withBuiltins.tables = [(0, .empty)] := by
    unfold tables
    rw [threads_withBuiltins]
    rfl
  refine ⟨founded, fun table member => ?_, fun table member text ref found => ?_⟩
  all_goals
    rw [tables] at member
    obtain rfl := List.mem_singleton.mp member
  · exact StringTable.sound_empty
  · rw [StringTable.find?_empty] at found
    cases found

theorem kept_remembers (first : Machine) : Call.Kept first.Remembers first.Remembers :=
  (basics_remembers first).kept keeps_step_remembers

/-- A new thread has an empty table. -/
theorem Remembers.create (remembers : first.Remembers machine) (name : String) {heap : Heap} :
    first.Remembers { machine with
      thread := .start (machine.parked.length + 1) name .new heap
      parked := machine.thread :: machine.parked } := by
  have interned := remembers.toInterned
  have numbered := interned.numbered.create name heap
  have founded := interned.toFounded.withThreads numbered
  refine remembers.trans (interned.stays founded
    (textsLast_of_objects interned.builtins founded.builtins fun ref object held _ => ?_)
    (fun table member => ?_) (List.subset_cons_self _ _))
  · obtain ⟨thread, member, there⟩ := interned.numbered.object?_eq_some.mp held
    exact numbered.object?_eq_some.mpr ⟨thread, List.mem_cons_of_mem _ member, there⟩
  · rcases List.mem_cons.mp member with rfl | old
    · exact .inr rfl
    · exact .inl old

theorem Remembers.switch (remembers : first.Remembers machine) {thread : Thread}
    (waits : thread ∈ machine.parked) :
    first.Remembers { machine with
      thread := thread
      parked := machine.thread :: machine.parked.filter (·.number != thread.number) } := by
  have interned := remembers.toInterned
  have perm : machine.threads.Perm { machine with
      thread := thread
      parked := machine.thread :: machine.parked.filter (·.number != thread.number) }.threads :=
    interned.numbered.perm_switch waits
  have founded := interned.toFounded.withThreads (interned.numbered.of_perm (perm.map _))
  have tables := perm.map fun thread => (thread.number, thread.strings)
  refine remembers.trans (interned.stays founded
    (textsLast_of_objects interned.builtins founded.builtins fun ref object held _ => ?_)
    (fun table member => .inl (tables.mem_iff.mpr member)) tables.subset)
  rw [object?_eq_of_perm interned.numbered perm, held]

theorem Remembers.proceeds (remembers : first.Remembers machine)
    (proceeds : Proceeds (fun _ _ _ => True) machine later) : first.Remembers later := by
  cases proceeds with
  | call declared fuel granted => exact (kept_remembers first).passes .ends remembers
  | intern text => exact (keeps_intern_remembers text).after remembers
  | resolve name => exact ((basics_remembers first).resolve name).after remembers
  | @define source bytes c read =>
      exact (keeps_loading_remembers (fun _ => Loading.keeps_define (.inl ⟨source, bytes, read⟩))
        (Loading.keeps_define_formed c) fun _ => Loading.keeps_define_threads c).after remembers
  | createThread name size =>
      rcases createThread_cases machine name size with same | ⟨-, heap, -, same⟩
      · rwa [same]
      · rw [same]
        exact remembers.create name
  | switchTo number =>
      rcases switchTo_cases machine number with same | ⟨thread, waits, rfl, same⟩
      · rwa [same]
      · rw [same]
        exact remembers.switch waits

end Machine

namespace StringRequest

variable {first machine later : Machine} {request : StringRequest} {text : String}

/-- In a pool whose texts end before their first zero byte, so does the text of a constant. -/
theorem upToNul_of_loadable {pool : Pool} (terminated : pool.Terminated) {index : Int} {wide : Bool}
    (read : pool.loadable index wide = .ok (.string text)) : Text.upToNul text = text := by
  unfold Pool.loadable at read
  split at read
  · cases read
  split at read
  case h_5 =>
    split at read
    · cases read
    · rename_i found
      cases read
      unfold Pool.utf8At Pool.select at found
      split at found
      · cases found
      · rename_i entry visited
        cases entry with
        | utf8 content =>
            obtain rfl := Except.ok.inj found
            exact terminated _ _ (Pool.visit_eq_ok visited).2.1
        | _ => cases found
  all_goals cases read

/-- A request for a text interns the text, unless it is a lookup. -/
theorem run_eq_intern (asks : request.text? = some text) (makes : request.isLookup = false) :
    request.run = (do return some (← Exec.intern text)) := by
  cases request with
  | lookup argument => cases makes
  | intern argument =>
      obtain rfl := Option.some.inj asks
      rfl
  | load pool terminated index =>
      dsimp only [text?] at asks
      split at asks
      · rename_i content read
        rw [upToNul_of_loadable terminated read] at asks
        obtain rfl := Option.some.inj asks
        funext machine
        simp only [run, read, Exec.ofFault, pure_bind, Exec.loadedValue, bind_assoc]
      · cases asks

theorem run_eq_lookup (asks : request.text? = some text) (looks : request.isLookup = true) :
    request.run = (do return (← Exec.thread).interned? text) := by
  cases request with
  | lookup argument =>
      obtain rfl := Option.some.inj asks
      rfl
  | _ => cases looks

theorem keeps_run_remembers (request : StringRequest) : Keeps first.Remembers request.run := by
  cases request with
  | intern text => exact keeps_bind (keeps_intern_remembers _) fun _ => keeps_pure _
  | lookup text => exact keeps_bind keeps_thread fun _ => keeps_pure _
  | load pool terminated index =>
      refine keeps_bind (keeps_ofFault _) fun constant => ?_
      refine keeps_bind ((basics_remembers first).keeps_loadedValue constant) fun v => ?_
      split <;> exact keeps_pure _

/-- What a request for a text answers is in the table then. Nothing is changed by a lookup, nor if
the text is in the table already, nor if the request fails, which is if there is no room for a new
string. -/
theorem ends_run (interned : machine.Interned) (asks : request.text? = some text) :
    request.run.Ends machine
      (fun answer later => later.thread.interned? text = answer ∧
        (request.isLookup = true → later = machine) ∧ (request.isLookup = false → answer ≠ none) ∧
        (machine.thread.interned? text ≠ none → later = machine) ∧
        later.thread.strings.texts =
          machine.thread.strings.texts ∪ (if request.isLookup then ∅ else {text}))
      fun halt later => request.isLookup = false ∧ later = machine ∧
        machine.thread.interned? text = none ∧ machine.LacksRoom halt := by
  have sound : machine.thread.strings.Sound := interned.sound _ List.mem_cons_self
  cases looks : request.isLookup with
  | true =>
      rw [run_eq_lookup asks looks]
      exact ends_bind_thread (ends_pure ⟨rfl, fun _ => rfl, nofun, fun _ => rfl, by simp⟩)
  | false =>
      rw [run_eq_intern asks looks]
      refine (ends_intern_remembers interned text).before (fun ref later ended => ?_)
        fun halt later ended => ⟨rfl, ended⟩
      obtain ⟨-, ⟨known, rfl⟩ | ⟨absent, entered⟩⟩ := ended
      · refine ends_pure ⟨known, nofun, nofun, fun _ => rfl, ?_⟩
        have listed : text ∈ later.thread.strings.texts := sound.mem_texts_iff.mpr ⟨ref, known⟩
        exact (Finset.union_eq_left.mpr (by simpa using listed)).symm
      · refine ends_pure ⟨interned?_of_entered entered, nofun, nofun,
          fun known => absurd absent known, ?_⟩
        rw [entered, StringTable.texts_insert, Finset.insert_eq, Finset.union_comm]
        rfl

/-- A text that is in the table is answered at once. -/
theorem run_of_interned (interned : machine.Interned) (asks : request.text? = some text) {ref : Ref}
    (found : machine.thread.interned? text = some ref) :
    request.run machine = .ok (some ref) machine := by
  have ended := ends_run interned asks
  cases ran : request.run machine with
  | error halt later =>
      obtain ⟨-, -, absent, -⟩ := ended.of_error ran
      cases absent.symm.trans found
  | ok answer later =>
      obtain ⟨here, -, -, same, -⟩ := ended.of_ok ran
      obtain rfl := same (by simp [found])
      rw [← here, found]

/-- A constant that is no string is loaded without a change. -/
theorem after_of_no_text (none : request.text? = none) : request.run.after machine = machine := by
  cases request with
  | intern text => cases none
  | lookup text => cases none
  | load pool terminated index =>
      dsimp only [text?] at none
      have ended : (run (.load pool terminated index)).Ends machine (fun _ later => later = machine)
          fun _ later => later = machine := by
        refine ends_bind_ofFault (fun constant read => ?_) fun _ _ => rfl
        cases constant with
        | string text => simp [read] at none
        | value v => cases v <;> exact ends_pure rfl
      exact (ended.mono (fun _ _ same => same) fun _ _ same => same).after

/-! ## Counting -/

theorem texts_after (interned : machine.Interned) (request : StringRequest) :
    (request.run.after machine).thread.strings.texts =
      machine.thread.strings.texts ∪ request.enters machine := by
  cases asks : request.text? with
  | none =>
      have nothing : request.enters machine = ∅ := by
        unfold enters
        split <;> simp [asks]
      rw [after_of_no_text asks, nothing, Finset.union_empty]
  | some text =>
      have ended := ends_run interned asks
      unfold enters Exec.after
      cases ran : request.run machine with
      | error halt later =>
          obtain ⟨-, rfl, -, -⟩ := ended.of_error ran
          exact (Finset.union_empty _).symm
      | ok answer later =>
          obtain ⟨-, -, -, -, texts⟩ := ended.of_ok ran
          simpa [asks] using texts

theorem interned_after (interned : machine.Interned) (request : StringRequest) :
    (request.run.after machine).Interned :=
  ((keeps_run_remembers request).after (.refl interned)).toInterned

/-- A table holds what it held before, and the texts for which strings have been made or found. -/
theorem texts_served (interned : machine.Interned) (requests : List StringRequest) :
    (served requests machine).Interned ∧ (served requests machine).thread.strings.texts =
      machine.thread.strings.texts ∪ entered requests machine := by
  induction requests generalizing machine with
  | nil => exact ⟨interned, (Finset.union_empty _).symm⟩
  | cons request rest ih =>
      obtain ⟨interned', texts⟩ := ih (interned_after interned request)
      refine ⟨interned', texts.trans ?_⟩
      rw [texts_after interned, entered, Finset.union_assoc]

end StringRequest

/-! ## Instructions and initial values -/

namespace LinkedClass

theorem terminated_builtins : ∀ c ∈ Class.builtins, ∀ slot ∈ c.pool.slots.toList,
    (match slot with
      | some (.utf8 text) => Text.upToNul text == text
      | _ => true) = true := by
  decide +kernel

/-- Texts in the pools of classes end before their first zero byte. -/
theorem Sourced.terminated {c : LinkedClass} (sourced : c.Sourced) : c.pool.Terminated := by
  obtain ⟨declared, id, super, origin, linked⟩ := sourced
  suffices terminated : declared.pool.Terminated by
    unfold LinkedClass.link at linked
    split at linked
    · cases linked
    · cases linked
      exact terminated
  rcases origin with ⟨source, bytes, read⟩ | ⟨spec, listed, made⟩
  · exact ClassFile.Reader.pool_ofBytes ClassFile.Reader.gives_pool_terminated read
  · intro index text here
    obtain ⟨slot, found, rfl⟩ := Option.bind_eq_some_iff.mp here
    exact beq_iff_eq.mp (terminated_builtins declared (Class.mem_builtins listed made) _
      (Array.mem_toList_iff.mpr (Array.mem_of_getElem? found)))

end LinkedClass

namespace Exec

variable {machine : Machine} {top : Frame} {below : List Frame} {text : String}

/-- A constant that is a string stands for what is in the table for its text then. -/
theorem ends_loadedValue_interned (interned : machine.Interned) (text : String) :
    (loadedValue (.string text)).Ends machine
      (fun v later => machine.Steady later ∧
        ∃ ref, v = .ref (some ref) ∧ later.thread.interned? text = some ref)
      fun halt later => later = machine ∧ machine.thread.interned? text = none ∧
        machine.LacksRoom halt := by
  refine ((ends_intern_remembers interned text).and
    (keeps_intern text machine (Steady.refl machine))).before (fun ref later ended => ?_)
      fun _ _ ended => ended.1
  obtain ⟨⟨-, ended⟩, steady⟩ := ended
  refine ends_pure ⟨steady, ref, rfl, ?_⟩
  obtain ⟨known, rfl⟩ | ⟨-, entered⟩ := ended
  · exact known
  · exact interned?_of_entered entered

/-- An instruction that loads a constant which is a string pushes what is in the table for its text
then. If there is no room for the string, nothing has changed. -/
theorem ends_ldc (interned : machine.Interned) (frames : machine.thread.frames = top :: below)
    {index : Nat} {wide : Bool} {c : LinkedClass}
    (holder : top.method.owner.bind machine.classOf? = some c)
    (read : c.pool.loadable index wide = .ok (.string text)) (length : Nat) :
    (loadConstant index wide length).Ends machine
      (fun _ later => ∃ ref frame, later.thread.interned? text = some ref ∧
        later.thread.frames = frame :: below ∧
        frame.stack.slots = .ref (some ref) :: top.stack.slots)
      fun halt later => later.thread.interned? text ≠ none ∨
        later = machine ∧ machine.LacksRoom halt := by
  obtain ⟨id, owner, known⟩ := Option.bind_eq_some_iff.mp holder
  refine (ends_currentPool frames owner known).before (fun pool here found => ?_) fun _ _ => nofun
  obtain ⟨rfl, rfl⟩ := found
  refine ends_bind_ofFault (fun constant loads => ?_) fun _ failed => by
    rw [read] at failed
    cases failed
  obtain rfl := Except.ok.inj (loads.symm.trans read)
  refine (ends_loadedValue_interned interned text).before (fun v later ended => ?_)
    fun halt later ended => .inr ⟨ended.1, ended.2.2⟩
  obtain ⟨steady, ref, rfl, entered⟩ := ended
  have frames' : later.thread.frames = top :: below := steady.frames.trans frames
  refine (ends_push_advance frames' _).mono (fun _ last pushed => ?_) fun halt last failed => ?_
  · obtain ⟨stack, slots, rfl⟩ := pushed
    exact ⟨ref, _, entered, frames_withTop frames' _, slots⟩
  · obtain ⟨⟨frame, rfl⟩, -⟩ := failed
    refine .inl ?_
    have same : (later.withTop frame).thread.interned? text = later.thread.interned? text := rfl
    rw [same, entered]
    exact Option.some_ne_none ref

/-- So does a step that executes it. -/
theorem ends_step_ldc (interned : machine.Interned) (frames : machine.thread.frames = top :: below)
    {index length : Nat} {wide : Bool} (next : top.next? = some (.constant index wide, length))
    {c : LinkedClass} (holder : top.method.owner.bind machine.classOf? = some c)
    (read : c.pool.loadable index wide = .ok (.string text)) :
    step.Ends machine
      (fun _ later => ∃ ref frame, later.thread.interned? text = some ref ∧
        later.thread.frames = frame :: below ∧
        frame.stack.slots = .ref (some ref) :: top.stack.slots)
      fun _ later => later.thread.interned? text ≠ none ∨
        later.thread.strings = machine.thread.strings := by
  obtain ⟨opcode, log, same⟩ := step_eq frames next
  have loads := ends_ldc (interned.logged log).toInterned frames holder read length
  unfold Ends
  rw [same]
  refine ends_mapFault (loads.before (fun _ later pushed => ends_pure pushed)
    fun halt later ended => ?_)
  exact ended.imp_right fun unchanged => congrArg (·.thread.strings) unchanged.1

/-- So does a field whose constant is a string, when it gets its first value. -/
theorem ends_firstValue_interned (interned : machine.Interned) {c : LinkedClass}
    (known : c ∈ machine.classes) {field : Field} (listed : field ∈ c.fields)
    (constant : field.constantIndex ≠ 0)
    (read : c.pool.loadable field.constantIndex (field.stackType.size == 2) = .ok (.string text)) :
    (Statics.firstValue c field).Ends machine
      (fun v later => ∃ ref, v = .ref (some ref) ∧ later.thread.interned? text = some ref)
      fun halt later => later = machine ∧ machine.thread.interned? text = none ∧
        machine.LacksRoom halt := by
  obtain ⟨loaded, loads, type⟩ :=
    Statics.loadable_first (interned.sourced c known) listed constant
  obtain rfl := Except.ok.inj (loads.symm.trans read)
  unfold Statics.firstValue
  dsimp only
  rw [if_neg constant, read]
  refine (ends_loadedValue_interned interned text).before (fun v later ended => ?_)
    fun _ _ ended => ended
  obtain ⟨-, ref, rfl, entered⟩ := ended
  exact ends_guard (fun wrong => absurd type wrong)
    fun _ => ends_pure ⟨ref, rfl, entered⟩

end Exec

namespace Machine

variable {first machine later : Machine}

/-! ## What lasts -/

theorem Remembers.moves (remembers : first.Remembers machine) (moves : machine.Moves later) :
    first.Remembers later := by
  cases moves with
  | proceeds proceeds => exact remembers.proceeds proceeds
  | passes passes => exact (kept_remembers first).passes passes remembers
  | steps => exact keeps_step_remembers.after remembers
  | initial c field => exact ((basics_remembers first).keeps_firstValue c field).after remembers
  | serves request => exact (StringRequest.keeps_run_remembers request).after remembers

theorem Interned.onward (interned : machine.Interned) (onward : machine.Onward later) :
    machine.Remembers later := by
  induction onward with
  | refl => exact .refl interned
  | tail _ moves ih => exact ih.moves moves

theorem Comes.onward (comes : machine.Comes) (onward : machine.Onward later) : later.Comes := by
  obtain ⟨options, files, start, started, before⟩ := comes
  exact ⟨options, files, start, started, before.trans onward⟩

theorem Comes.interned (comes : machine.Comes) : machine.Interned := by
  obtain ⟨options, files, start, started, onward⟩ := comes
  exact ((interned_start started).onward onward).toInterned

/-- What has been interned has the text ever after. -/
theorem Interned.text?_onward (interned : machine.Interned) {text : String} {ref : Ref}
    (found : machine.thread.interned? text = some ref) (onward : machine.Onward later) :
    later.text? ref = some text := by
  have remembers := interned.onward onward
  obtain ⟨table, member, kept⟩ := remembers.found _ List.mem_cons_self
  exact (remembers.texts _ member text ref (kept text ref found)).2

/-- One text, one string: the two that a thread has found in its table differ together. -/
theorem Interned.ref_eq_iff (interned : machine.Interned) {text other : String} {ref ref' : Ref}
    (found : machine.thread.interned? text = some ref)
    (found' : machine.thread.interned? other = some ref') : ref' = ref ↔ other = text := by
  constructor
  · rintro rfl
    exact Option.some.inj ((interned.text? found').symm.trans (interned.text? found))
  · rintro rfl
    exact Option.some.inj (found'.symm.trans found)

/-! ## Strings and texts -/

/-- A thread has one string for each text that it has interned, and one text for each such string.
- Whatever happens, what it has found for a text keeps that text, is what it finds for it, and for
  no other text.
- A request answers with what is in the table for its text then: a lookup makes nothing, and the
  others have an answer unless they fail, for lack of room, and then nothing has changed.
- The table counts the texts that are in it, those that requests have entered among them.
- Every pool can be asked for its strings, and this is what the instructions do that load a
  constant, and what gives a static field its first value. -/
theorem interning_is_bijective (comes : machine.Comes) :
    (∀ (text : String) (ref : Ref), machine.thread.interned? text = some ref →
      ∀ later : Machine, machine.Onward later → later.text? ref = some text ∧
        (later.thread.number = machine.thread.number →
          (∀ request : StringRequest, request.text? = some text →
            request.run later = .ok (some ref) later) ∧
          ∀ (other : String) (ref' : Ref), later.thread.interned? other = some ref' →
            (ref' = ref ↔ other = text))) ∧
    (∀ (request : StringRequest) (text : String), request.text? = some text →
      request.run.Ends machine
        (fun answer later => later.thread.interned? text = answer ∧
          (request.isLookup = true → later = machine) ∧ (request.isLookup = false → answer ≠ none))
        fun halt later => request.isLookup = false ∧ later = machine ∧
          machine.thread.interned? text = none ∧ machine.LacksRoom halt) ∧
    (∀ requests : List StringRequest,
      (StringRequest.served requests machine).thread.strings.length =
        (machine.thread.strings.texts ∪ StringRequest.entered requests machine).card) ∧
    (∀ text : String, text ∈ machine.thread.strings.texts ↔ machine.thread.interned? text ≠ none) ∧
    (∀ c ∈ machine.classes, c.pool.Terminated) ∧
    (∀ (top : Frame) (below : List Frame) (index length : Nat) (wide : Bool) (c : LinkedClass)
      (text : String), machine.thread.frames = top :: below →
      top.next? = some (.constant index wide, length) →
      top.method.owner.bind machine.classOf? = some c →
      c.pool.loadable index wide = .ok (.string text) →
      step.Ends machine
        (fun _ later => ∃ ref frame, later.thread.interned? text = some ref ∧
          later.thread.frames = frame :: below ∧
          frame.stack.slots = .ref (some ref) :: top.stack.slots)
        fun _ later => later.thread.interned? text ≠ none ∨
          later.thread.strings = machine.thread.strings) ∧
    ∀ c ∈ machine.classes, ∀ field ∈ c.fields, ∀ text : String, field.constantIndex ≠ 0 →
      c.pool.loadable field.constantIndex (field.stackType.size == 2) = .ok (.string text) →
      (Statics.firstValue c field).Ends machine
        (fun v later => ∃ ref, v = .ref (some ref) ∧ later.thread.interned? text = some ref)
        fun halt later => later = machine ∧ machine.thread.interned? text = none ∧
          machine.LacksRoom halt := by
  have interned := comes.interned
  refine ⟨fun text ref found later onward => ⟨interned.text?_onward found onward, fun number => ?_⟩,
    fun request text asks => ?_, fun requests => ?_, fun text => ?_,
    fun c known => (interned.sourced c known).terminated,
    fun top below index length wide c text frames next holder read =>
      ends_step_ldc interned frames next holder read,
    fun c known field listed text constant read =>
      ends_firstValue_interned interned known listed constant read⟩
  · have remembers := interned.onward onward
    have found' := remembers.interned? number found
    exact ⟨fun request asks => StringRequest.run_of_interned remembers.toInterned asks found',
      fun other ref' => remembers.ref_eq_iff found'⟩
  · exact (StringRequest.ends_run interned asks).mono
      (fun answer later ended => ⟨ended.1, ended.2.1, ended.2.2.1⟩) fun halt later ended => ended
  · obtain ⟨interned', texts⟩ := StringRequest.texts_served interned requests
    rw [← texts, (interned'.sound _ List.mem_cons_self).length_eq_card]
  · rw [(interned.sound _ List.mem_cons_self).mem_texts_iff]
    exact Option.ne_none_iff_exists'.symm

/-- The text `yes` has been interned, and there is room for one more string. -/
def said : Machine := (StringRequest.intern "yes\x00no").run.after (greeting 64)

theorem comes_said : said.Comes := by
  refine ⟨{ Options.standard with heapSize := 64 }, .empty, sized 64, start_eq_ok rfl, ?_⟩
  have loads : (sized 64).Onward (greeting 64) := by
    unfold greeting withFile
    split
    · exact .refl
    · rename_i read
      exact .single (.proceeds (.define read))
  exact loads.tail (.serves _)

/-- The constant of a field is the second string, and then there is no room for a third. -/
theorem interning_is_bijective_said :
    (∃ (yes hello : Ref) (later : Machine), said.Onward later ∧
      said.thread.interned? "yes" = some yes ∧ later.thread.interned? "hello" = some hello ∧
      later.text? yes = some "yes" ∧ hello ≠ yes ∧
      (StringRequest.intern "yes\x00maybe").run later = .ok (some yes) later ∧
      ∃ halt, (StringRequest.intern "again").run later = .error halt later ∧
        later.LacksRoom halt) ∧
    (StringRequest.served [.intern "no", .lookup "again", .intern "yes"]
      said).thread.strings.length = 2 := by
  obtain ⟨remembered, -, counted, -, -, -, first⟩ := interning_is_bijective comes_said
  refine ⟨?_, (counted _).trans (by decide +kernel)⟩
  obtain ⟨yes, found⟩ := Option.ne_none_iff_exists'.mp
    (show said.thread.interned? "yes" ≠ none by decide +kernel)
  obtain ⟨c, known, field, listed, constant, read, number, full⟩ : ∃ c ∈ said.classes,
      ∃ field ∈ c.fields, field.constantIndex ≠ 0 ∧
        c.pool.loadable field.constantIndex (field.stackType.size == 2) = .ok (.string "hello") ∧
        ((Statics.firstValue c field).after said).thread.number = said.thread.number ∧
        (match Statics.firstValue c field said with
          | .ok _ later => match (StringRequest.intern "again").run later with
              | .ok _ _ => false
              | .error _ _ => true
          | .error _ _ => false) = true := by decide +kernel
  have value := first c known field listed "hello" constant read
  cases ran : Statics.firstValue c field said with
  | error halt later => simp [ran] at full
  | ok v later =>
      obtain ⟨hello, -, found'⟩ := value.of_ok ran
      have after : (Statics.firstValue c field).after said = later := by
        unfold Exec.after
        rw [ran]
      rw [after] at number
      have onward : said.Onward later := .single (after ▸ .initial c field)
      obtain ⟨text, kept⟩ := remembered "yes" yes found later onward
      obtain ⟨answers, apart⟩ := kept number
      refine ⟨yes, hello, later, onward, found, found', text, fun same => ?_,
        answers _ (by decide +kernel), ?_⟩
      · exact absurd ((apart "hello" hello found').mp same) (by decide)
      · have ended := (interning_is_bijective (comes_said.onward onward)).2.1 (.intern "again")
          "again" (by decide +kernel)
        simp only [ran] at full
        cases ran' : (StringRequest.intern "again").run later with
        | ok answer last => simp [ran'] at full
        | error halt last =>
            obtain ⟨-, rfl, -, lacks⟩ := ended.of_error ran'
            exact ⟨halt, rfl, lacks⟩

end Machine

end Jvm
