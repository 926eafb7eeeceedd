/-
# Jvm.Proofs.Initialization.Once — a class is initialized at most once per thread

Asking for a class comes to starting the initializers of some classes of its chain: of each that
is prepared when its superclass is ready (`Initialization.Comes`). The class waits before that
(`Comes.pending`) and never again (`Comes.ends`), since no class comes back to where its
initialization has not started. So no later question comes to it a second time, whatever happens
in between, on any thread (`initialized_once`).
-/
import Jvm.Proofs.Initialization.Later

namespace Jvm

set_option autoImplicit false

open Exec Machine

namespace Initialization

/-! ## Starting an initializer -/

/-- Asking for the first class of a chain comes to starting the initializer of a class, in the
machine `here`. -/
inductive Comes (c : LinkedClass) (here : Machine) : List ClassId → Machine → Prop
  | own {id : ClassId} {supers : List ClassId} {machine prepared : Machine}
      (found : machine.classOf? id = some c)
      (waits : Statics.prepare c machine = .ok .prepared prepared)
      (ready : initializeChain supers prepared = .ok true here) : Comes c here (id :: supers) machine
  | above {id : ClassId} {supers : List ClassId} {machine prepared : Machine} {d : LinkedClass}
      (found : machine.classOf? id = some d)
      (waits : Statics.prepare d machine = .ok .prepared prepared)
      (comes : Comes c here supers prepared) : Comes c here (id :: supers) machine

/-- Whether asking for the first class of a chain comes to starting the initializer of a class. -/
def comesTo (c : LinkedClass) : List ClassId → Machine → Bool
  | [], _ => false
  | id :: supers, machine =>
      match machine.classOf? id with
      | none => false
      | some d =>
          match Statics.prepare d machine with
          | .ok .prepared prepared =>
              comesTo c supers prepared || decide (d = c) &&
                match initializeChain supers prepared with
                | .ok ready _ => ready
                | .error _ _ => false
          | _ => false

variable {c : LinkedClass} {machine here : Machine} {chain : List ClassId}

theorem exists_comes (comes : comesTo c chain machine = true) :
    ∃ here, Comes c here chain machine := by
  induction chain generalizing machine with
  | nil => cases comes
  | cons id supers ih =>
      unfold comesTo at comes
      split at comes
      · cases comes
      · rename_i d found
        split at comes
        · rename_i prepared waits
          rw [Bool.or_eq_true, Bool.and_eq_true, decide_eq_true_eq] at comes
          rcases comes with above | ⟨rfl, own⟩
          · obtain ⟨here, comes⟩ := ih above
            exact ⟨here, .above found waits comes⟩
          · split at own
            · rename_i ready here asked
              exact ⟨here, .own found waits (own ▸ asked)⟩
            · cases own
        · cases comes

theorem Comes.mem (comes : Comes c here chain machine) : c.id ∈ chain := by
  induction comes with
  | own found waits ready => exact (mem_of_classOf? found).2 ▸ List.mem_cons_self
  | above found waits comes ih => exact List.mem_cons_of_mem _ ih

/-- The class of which the chain is, and what the rest of the chain is once it has been prepared. -/
theorem Layered.cons {id : ClassId} {supers : List ClassId} {prepared : Machine} {d : LinkedClass}
    (identified : machine.Identified) (layered : Layered machine (id :: supers))
    (found : machine.classOf? id = some d)
    (waits : Statics.prepare d machine = .ok .prepared prepared) :
    d ∈ machine.classes ∧ d.chain = id :: supers ∧ machine.Prepares prepared ∧
      prepared.thread.state? d.id = some .prepared ∧ Layered prepared supers := by
  obtain ⟨known, rfl, rfl, below⟩ := layered.head identified found
  obtain ⟨prepares, recorded⟩ := (ends_prepare_state d machine).of_ok waits
  exact ⟨known, rfl, prepares, recorded, below.grows prepares.toGrows⟩

/-- Until the initializer is started, the thread has only taken turns of the chain. -/
theorem Comes.within (comes : Comes c here chain machine) (identified : machine.Identified)
    (layered : Layered machine chain) : Within chain machine here := by
  induction comes with
  | @own id supers machine prepared found waits ready =>
      obtain ⟨-, -, prepares, -, layered'⟩ := layered.cons identified found waits
      have asks := ends_initializeChain_within supers (prepares.identified identified) layered'
      exact prepares.within.trans ((asks.of_ok ready).1.mono fun _ => List.mem_cons_of_mem id)
  | @above id supers machine prepared d found waits comes ih =>
      obtain ⟨-, -, prepares, -, layered'⟩ := layered.cons identified found waits
      exact prepares.within.trans
        ((ih (prepares.identified identified) layered').mono fun _ => List.mem_cons_of_mem id)

/-- When the initializer of a class is started, the class is prepared, and its superclass is in
use, if it has one. -/
theorem Comes.prepared (comes : Comes c here chain machine) (identified : machine.Identified)
    (layered : Layered machine chain) :
    c ∈ here.classes ∧ here.thread.state? c.id = some .prepared ∧
      ∀ super ∈ c.superId?, here.thread.ledger.InUse super := by
  induction comes with
  | @own id supers machine prepared found waits ready =>
      obtain ⟨known, same, prepares, recorded, layered'⟩ := layered.cons identified found waits
      obtain ⟨rfl, rfl⟩ : c.id = id ∧ c.supers = supers := by simpa [LinkedClass.chain] using same
      have asks := ends_initializeChain_within c.supers (prepares.identified identified) layered'
      obtain ⟨within, -, used⟩ := asks.of_ok ready
      have outside : c.id ∉ c.supers := (List.nodup_cons.mp (identified.layered c known).1).1
      refine ⟨within.mem (prepares.mem known), ?_, used rfl⟩
      exact (within.elsewhere c.id outside (by simp [recorded])).trans recorded
  | @above id supers machine prepared d found waits comes ih =>
      obtain ⟨-, -, prepares, -, layered'⟩ := layered.cons identified found waits
      exact ih (prepares.identified identified) layered'

/-- The class waits when the question is asked. -/
theorem Comes.pending (comes : Comes c here chain machine) (identified : machine.Identified)
    (layered : Layered machine chain) : machine.thread.ledger.Pending c.id := by
  have leads := (comes.within identified layered).turns.course.leads c.id
  exact leads.pending (Thread.pending_of_state? (comes.prepared identified layered).2.1)

/-! ## Never again -/

/-- The initialization of the class has started. -/
def Begun (id : ClassId) (machine : Machine) : Prop := ¬ machine.thread.ledger.Pending id

theorem begun_of_state? {id : ClassId} {state : InitState}
    (recorded : machine.thread.state? id = some state) (state' : state ≠ .prepared) :
    Begun id machine := by
  intro pending
  have pending : InitState.isPending (machine.thread.state? id) = true := pending
  rw [recorded] at pending
  cases state <;> first | exact state' rfl | cases pending

theorem Begun.setInitState {id : ClassId} (begun : Begun id machine) (other : ClassId)
    {state : InitState} (state' : state ≠ .prepared) :
    Begun id (machine.updateThread fun thread => thread.setInitState other state) := by
  obtain ⟨old, recorded⟩ : ∃ old, machine.thread.state? id = some old := by
    refine Option.ne_none_iff_exists'.mp fun absent => begun ?_
    show InitState.isPending (machine.thread.state? id) = true
    rw [absent]
    rfl
  by_cases same : id = other
  · subst same
    have known : machine.thread.state? id ≠ none := by simp [recorded]
    exact begun_of_state? ((Thread.state?_setInitState known state id).trans (if_pos rfl)) state'
  · have other' := Thread.state?_updateRecord machine.thread other
      (fun record => { record with state := state }) (fun _ => rfl) id
    rw [if_neg same] at other'
    unfold Begun Ledger.Pending
    show ¬ InitState.isPending ((machine.thread.setInitState other state).state? id) = true
    unfold Thread.setInitState
    rw [other']
    exact begun

theorem Begun.settles {id : ClassId} {later : Machine} (begun : Begun id machine)
    (settles : machine.Settles later) : Begun id later :=
  fun pending => begun ((settles.turns.course.leads id).pending pending)

theorem keeps_failing_begun {α : Type} {id other : ClassId} {action : Exec α}
    (keeps : Keeps (Begun id) action) : Keeps (Begun id) (failing other action) :=
  keeps_onHalt keeps fun _ begun => begun.setInitState other (by simp)

theorem keeps_start_begun (id : ClassId) (d : LinkedClass) : Keeps (Begun id) (start d) := by
  have marks (state : InitState) (state' : state ≠ .prepared) : Keeps (Begun id) (setState d.id state) :=
    keeps_modify fun _ begun => begun.setInitState d.id state'
  have quiet {α : Type} {action : Exec α} (keeps : ∀ machine : Machine, Keeps machine.Still action) :
      Keeps (Begun id) action := by
    intro machine begun
    have still : ∀ later, machine.Still later → Begun id later := fun later still => by
      unfold Begun Ledger.Pending
      show ¬ InitState.isPending (later.thread.state? id) = true
      rw [still.states]
      exact begun
    exact (keeps machine machine (Still.refl machine)).mono (fun _ later kept => still later kept)
      fun _ later kept => still later kept
  refine keeps_bind (quiet fun _ => keeps_still fun _ => keeps_trace _ _) fun _ => ?_
  split
  · exact keeps_bind (marks .ready (by simp)) fun _ => keeps_pure _
  · rename_i method _
    refine keeps_bind (marks .running (by simp)) fun _ => ?_
    split
    · have runs : Keeps (Begun id) (runNative d method.native) := by
        unfold runNative
        split
        · exact keeps_fail _
        · refine keeps_bind (fun machine begun => ?_) fun _ => keeps_pure _
          exact (ends_native_prepares _ _ machine).mono
            (fun _ _ prepares => begun.settles prepares.settles)
            fun _ _ prepares => begun.settles prepares.settles
      refine keeps_bind (keeps_failing_begun runs) fun _ => ?_
      exact keeps_bind (marks .ready (by simp)) fun _ => keeps_pure _
    · exact keeps_bind (keeps_failing_begun (quiet fun _ => keeps_pushFrame_still _))
        fun _ => keeps_pure _

/-- Whatever the answer, the initialization of the class has started. -/
theorem Comes.ends (comes : Comes c here chain machine) (identified : machine.Identified)
    (layered : Layered machine chain) :
    (initializeChain chain).Ends machine (fun _ => Begun c.id) fun _ => Begun c.id := by
  obtain ⟨known, recorded, used⟩ := comes.prepared identified layered
  induction comes with
  | @own id supers machine prepared found waits ready =>
      refine ends_bind_run (classOf_eq_ok.mpr ⟨found, rfl⟩) (ends_bind_run waits ?_)
      refine ends_bind_run (onHalt_eq_ok.mpr ready) ?_
      refine (ends_start_within known recorded used).mono (fun _ later ended => ?_)
        fun _ later ended => begun_of_state? ended.2 (by simp)
      exact fun pending => InitState.not_inUse_of_pending pending ended.2.2
  | @above id supers machine prepared d found waits comes ih =>
      obtain ⟨-, -, prepares, -, layered'⟩ := layered.cons identified found waits
      refine ends_bind_run (classOf_eq_ok.mpr ⟨found, rfl⟩) (ends_bind_run waits ?_)
      have above := ih (prepares.identified identified) layered'
      refine Ends.before (ends_onHalt (above.mono (fun _ _ begun => begun)
        fun _ _ begun => begun.setInitState id (by simp))) (fun ready asked begun => ?_)
        fun _ _ begun => begun
      cases ready with
      | true => exact keeps_start_begun c.id d asked begun
      | false => exact ends_pure begun

/-- Asking for the first class of a chain comes to the initializer of a class at one point only. -/
theorem Comes.unique {there : Machine} (comes : Comes c here chain machine)
    (again : Comes c there chain machine) (distinct : chain.Nodup) : there = here := by
  induction comes with
  | @own id supers machine prepared found waits ready =>
      have outside := (List.nodup_cons.mp distinct).1
      cases again with
      | own _ waits' ready' =>
          obtain rfl : prepared = _ := by simpa [waits] using waits'
          simpa [ready, eq_comm] using ready'
      | above _ _ comes' => exact absurd ((mem_of_classOf? found).2 ▸ comes'.mem) outside
  | @above id supers machine prepared d found waits comes ih =>
      obtain ⟨outside, distinct'⟩ := List.nodup_cons.mp distinct
      cases again with
      | own found' _ _ => exact absurd ((mem_of_classOf? found').2 ▸ comes.mem) outside
      | above found' waits' comes' =>
          obtain rfl : d = _ := by simpa [found] using found'
          obtain rfl : prepared = _ := by simpa [waits] using waits'
          exact ih comes' distinct'

end Initialization

namespace Machine

variable {machine first last asked again here there : Machine} {c d one other : LinkedClass}

theorem Orderly.threadOf? (orderly : machine.Orderly) {thread : Thread}
    (member : thread ∈ machine.threads) : machine.threadOf? thread.number = some thread := by
  unfold Machine.threadOf?
  by_cases current : machine.thread.number = thread.number
  · rw [if_pos current, orderly.eq_of_number List.mem_cons_self member current]
  · rw [if_neg current]
    have parked : thread ∈ machine.parked := by
      rcases List.mem_cons.mp member with rfl | parked
      · exact absurd rfl current
      · exact parked
    cases found : machine.parked.find? (·.number == thread.number) with
    | none => simpa using List.find?_eq_none.mp found thread parked
    | some other =>
        have same : other.number = thread.number := by simpa using List.find?_some found
        have listed := List.mem_of_find?_eq_some found
        rw [orderly.eq_of_number (List.mem_cons_of_mem _ listed) member same]

theorem Later.leads (later : Later first last) (orderly : first.Orderly) {thread : Thread}
    (member : thread ∈ first.threads) :
    ∃ after, last.threadOf? thread.number = some after ∧
      ∀ id, InitState.Leads (thread.state? id) (after.state? id) := by
  obtain ⟨advances, orderly'⟩ := later.advances orderly
  obtain ⟨after, member', number, course⟩ := advances.threads thread member
  exact ⟨after, number ▸ orderly'.threadOf? member', course.leads⟩

/-- Once the initializer of a class has been started on a thread, nothing starts it there again. -/
theorem Later.apart (orderly : asked.Orderly) (known : one ∈ asked.classes)
    (comes : Initialization.Comes c here one.chain asked)
    (later : Later ((Initialization.ensureReady one).after asked) again)
    (same : again.thread.number = asked.thread.number) (known' : other ∈ again.classes)
    (comes' : Initialization.Comes d there other.chain again) : d.id ≠ c.id := by
  rintro equal
  have identified := orderly.identified
  obtain ⟨advances, orderly'⟩ := (Part.asks known).advances orderly
  obtain ⟨-, orderly''⟩ := later.advances orderly'
  have begun := (comes.ends identified (.inr ⟨one, known, rfl⟩)).after
  have number := (grows_ensureReady one asked).number
  have course := later.course orderly' (same.trans number.symm)
  have pending := comes'.pending orderly''.identified (.inr ⟨other, known', rfl⟩)
  rw [equal] at pending
  exact begun ((course.leads c.id).pending pending)

/-- Classes are initialized once. On every thread of every machine that a session comes to, a class
has one record at most; the classes that are running are those whose initializers are on the call
stack, each once, so that none is running when the stack is empty. Whatever happens, the state of a
class on a thread moves forward only. And the initializer of a class is started once at most on a
thread: in no answer to one question twice, nor in the answers to two questions, whatever happens in
between. -/
theorem initialized_once :
    (∀ machine, Reached (fun _ => True) machine → ∀ thread ∈ machine.threads,
      (thread.records.map (·.classId)).Nodup ∧
      (∀ id, thread.state? id = some .running ↔ id ∈ thread.initializers) ∧
      thread.initializers.Nodup ∧
      (thread.frames = [] → ∀ id, thread.state? id ≠ some .running)) ∧
    (∀ first last, Reached (fun _ => True) first → Later first last → ∀ thread ∈ first.threads,
      ∃ after, last.threadOf? thread.number = some after ∧
        ∀ id, InitState.Leads (thread.state? id) (after.state? id)) ∧
    ∀ (first asked : Machine) (one c : LinkedClass) (here : Machine),
      Reached (fun _ => True) first → Later first asked → one ∈ asked.classes →
      Initialization.Comes c here one.chain asked →
      (∀ there, Initialization.Comes c there one.chain asked → there = here) ∧
      ∀ (again : Machine) (other d : LinkedClass) (there : Machine),
        Later ((Initialization.ensureReady one).after asked) again →
        again.thread.number = asked.thread.number → other ∈ again.classes →
        Initialization.Comes d there other.chain again → d.id ≠ c.id := by
  refine ⟨fun machine reached thread member => ?_, fun first last reached later thread member =>
    later.leads reached.orderly member, fun first asked one c here reached later known comes => ?_⟩
  · obtain ⟨single, inStep⟩ := reached.orderly.tidy thread member
    refine ⟨single, inStep.running, inStep.once, fun empty id running => ?_⟩
    have listed : id ∈ thread.frames.filterMap Frame.initializing := (inStep.running id).mp running
    rw [empty] at listed
    cases listed
  · obtain ⟨-, orderly⟩ := later.advances reached.orderly
    refine ⟨fun there comes' => comes.unique comes' (orderly.identified.layered one known).1,
      fun again other d there later' same known' comes' => ?_⟩
    exact Later.apart orderly known comes later' same known' comes'

/-! ## Three classes -/

/-- The file of the class `C`. Its initializer, with code `178 0 11 87 4 3 108 87 177`, reads the
static field `x` of `E` and then divides by zero; its static method `touch` does nothing. -/
def baseFile : List UInt8 :=
  [202, 254, 186, 190, 0, 0, 0, 52, 0, 15, 1, 0, 1, 67, 7, 0, 1, 1, 0, 16, 106, 97, 118, 97, 47,
    108, 97, 110, 103, 47, 79, 98, 106, 101, 99, 116, 7, 0, 3, 1, 0, 4, 67, 111, 100, 101, 1, 0,
    1, 69, 7, 0, 6, 1, 0, 1, 120, 1, 0, 1, 73, 12, 0, 8, 0, 9, 9, 0, 7, 0, 10, 1, 0, 8, 60, 99,
    108, 105, 110, 105, 116, 62, 1, 0, 3, 40, 41, 86, 1, 0, 5, 116, 111, 117, 99, 104, 0, 33, 0,
    2, 0, 4, 0, 0, 0, 0, 0, 2, 0, 8, 0, 12, 0, 13, 0, 1, 0, 5, 0, 0, 0, 21, 0, 2, 0, 0, 0, 0, 0,
    9, 178, 0, 11, 87, 4, 3, 108, 87, 177, 0, 0, 0, 0, 0, 9, 0, 14, 0, 13, 0, 1, 0, 5, 0, 0, 0,
    13, 0, 0, 0, 0, 0, 0, 0, 1, 177, 0, 0, 0, 0, 0, 0]

/-- The file of the class `E`, a subclass of `C`, whose initializer assigns its static field `x`. -/
def middleFile : List UInt8 :=
  [202, 254, 186, 190, 0, 0, 0, 52, 0, 12, 1, 0, 1, 69, 7, 0, 1, 1, 0, 1, 67, 7, 0, 3, 1, 0, 4,
    67, 111, 100, 101, 1, 0, 1, 120, 1, 0, 1, 73, 12, 0, 6, 0, 7, 9, 0, 2, 0, 8, 1, 0, 8, 60, 99,
    108, 105, 110, 105, 116, 62, 1, 0, 3, 40, 41, 86, 0, 33, 0, 2, 0, 4, 0, 0, 0, 1, 0, 8, 0, 6,
    0, 7, 0, 0, 0, 1, 0, 8, 0, 10, 0, 11, 0, 1, 0, 5, 0, 0, 0, 18, 0, 1, 0, 0, 0, 0, 0, 6, 16, 5,
    179, 0, 9, 177, 0, 0, 0, 0, 0, 0]

/-- The file of the class `D`, a subclass of `E`. Its static method `foo` returns 7, and its static
method `bar`, with code `184 0 13 177`, calls `touch`. -/
def leafFile : List UInt8 :=
  [202, 254, 186, 190, 0, 0, 0, 52, 0, 15, 1, 0, 1, 68, 7, 0, 1, 1, 0, 1, 69, 7, 0, 3, 1, 0, 4,
    67, 111, 100, 101, 1, 0, 3, 102, 111, 111, 1, 0, 3, 40, 41, 73, 1, 0, 1, 67, 7, 0, 8, 1, 0, 5,
    116, 111, 117, 99, 104, 1, 0, 3, 40, 41, 86, 12, 0, 10, 0, 11, 10, 0, 9, 0, 12, 1, 0, 3, 98,
    97, 114, 0, 33, 0, 2, 0, 4, 0, 0, 0, 0, 0, 2, 0, 9, 0, 6, 0, 7, 0, 1, 0, 5, 0, 0, 0, 15, 0, 1,
    0, 0, 0, 0, 0, 3, 16, 7, 172, 0, 0, 0, 0, 0, 9, 0, 14, 0, 11, 0, 1, 0, 5, 0, 0, 0, 16, 0, 0,
    0, 0, 0, 0, 0, 4, 184, 0, 13, 177, 0, 0, 0, 0, 0, 0]

/-- The built-in classes, and the classes of the three files. -/
def family : Machine :=
  (((blank .standard .empty (.empty 8388608)).withBuiltins.withFile "C" baseFile).withFile "E"
    middleFile).withFile "D" leafFile

theorem session_family : Session (fun _ => True) family :=
  (((Session.start (start_eq_ok rfl)).withFile trivial "C" baseFile).withFile trivial "E"
    middleFile).withFile trivial "D" leafFile

/-- The initializer of `C` has failed, after that of `E` has run. -/
def failing : Machine := family.calling "touch" 64 []

theorem later_failing : Later family failing := by
  rcases calling_cases family "touch" 64 [] with same | follows
  · unfold failing
    rw [same]
  · exact follows.later

/-- `C` has been asked for, and its initializer has been started. -/
def asking : Machine :=
  match family.classes.find? (·.name = "C") with
  | some c => (Initialization.ensureReady c).after family
  | none => family

theorem later_asking : Later family asking := by
  unfold asking
  split
  · rename_i c found
    exact .single (.asks (List.mem_of_find?_eq_some found))
  · exact .refl

theorem initialized_once_family :
    (∀ thread ∈ failing.threads, (thread.records.map (·.classId)).Nodup ∧
      (∀ id, thread.state? id = some .running ↔ id ∈ thread.initializers) ∧
      thread.initializers.Nodup ∧
      (thread.frames = [] → ∀ id, thread.state? id ≠ some .running)) ∧
    (∃ (id : ClassId) (after : Thread), failing.threadOf? 0 = some after ∧
      after.state? id = some .failed ∧
      ∀ id, InitState.Leads (family.thread.state? id) (after.state? id)) ∧
    ∃ (one c d : LinkedClass) (here there : Machine), Initialization.Comes c here one.chain family ∧
      Initialization.Comes d there d.chain ((Initialization.ensureReady one).after family) ∧
      d.id ≠ c.id := by
  have reached : Reached (fun _ => True) family := .between session_family
  obtain ⟨c, known, failed⟩ :
      ∃ c ∈ family.classes, failing.thread.state? c.id = some .failed := by decide +kernel
  refine ⟨initialized_once.1 failing (.between (session_family.calling trivial _ _ _)),
    ⟨c.id, failing.thread, by decide +kernel, failed, ?_⟩, ?_⟩
  · obtain ⟨after, found, leads⟩ := initialized_once.2.1 family failing reached later_failing
      family.thread List.mem_cons_self
    have current : failing.threadOf? family.thread.number = some failing.thread := by
      decide +kernel
    obtain rfl := Option.some.inj (current.symm.trans found)
    exact leads
  · obtain ⟨one, known, c, -, comes, d, known', comes'⟩ : ∃ one ∈ family.classes,
        ∃ c ∈ family.classes, Initialization.comesTo c one.chain family = true ∧
        ∃ d ∈ ((Initialization.ensureReady one).after family).classes,
          Initialization.comesTo d d.chain ((Initialization.ensureReady one).after family) = true := by
      decide +kernel
    obtain ⟨here, comes⟩ := Initialization.exists_comes comes
    obtain ⟨there, comes'⟩ := Initialization.exists_comes comes'
    have number := (grows_ensureReady one family).number
    exact ⟨one, c, d, here, there, comes, comes', (initialized_once.2.2 family family one c here
      reached .refl known comes).2 _ d d there .refl number known' comes'⟩

end Machine

end Jvm
