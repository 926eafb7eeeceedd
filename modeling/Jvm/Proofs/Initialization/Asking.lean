/-
# Jvm.Proofs.Initialization.Asking — asking for a class to be ready

Asking for a class goes up the chain of its superclasses and comes back down, starting the
initializer of each class that waits once its superclass is in use. Whatever comes of it, the
thread has taken turns (`Machine.Within`), and only classes of the chain have changed. If the class
is ready, it is in use, and the call stack is as it was; if not, the frame of the initializer of a
class of the chain is on top (`ends_ensureReady_within`).

A native initializer runs inside of the turn of its class, so its own turn comes first
(`Ledger.turns_across`).
-/
import Jvm.Proofs.Initialization.Turns

namespace Jvm

set_option autoImplicit false

open Exec Machine

/-! ## Asking for a class -/

namespace Initialization

variable {machine ran : Machine} {c : LinkedClass}

/-- The machine in which the initializer of a class begins. -/
def running (c : LinkedClass) (machine : Machine) : Machine :=
  machine.updateThread fun thread => thread.setInitState c.id .running

/-- The machine in which the frame of the initializer of a class is on top. -/
def entered (c : LinkedClass) (method : Method) (machine : Machine) : Machine :=
  (running c machine).pushFrame { Frame.start method with initializing := some c.id }

theorem ledger_running (prepared : machine.thread.state? c.id = some .prepared) :
    (running c machine).thread.ledger = machine.thread.ledger.mark c.id .running :=
  Thread.ledger_setInitState (by simp [prepared]) _

/-- The initializer of a class is native, and has run. -/
theorem within_across {state : InitState} (prepared : machine.thread.state? c.id = some .prepared)
    (prepares : (running c machine).Prepares ran)
    (turn : ∀ ledger : Ledger, ledger.state c.id = some .prepared →
      (∀ other, machine.thread.ledger.InUse other → ledger.InUse other) →
      Ledger.Turn machine.classes ledger (ledger.mark c.id state)) :
    Within [c.id] machine (ran.updateThread fun thread => thread.setInitState c.id state) ∧
      (ran.updateThread fun thread => thread.setInitState c.id state).thread.state? c.id =
        some state := by
  have started := ledger_running prepared
  have began := Thread.state?_setInitState (by simp [prepared] : machine.thread.state? c.id ≠ none)
    .running
  have running' : (running c machine).thread.state? c.id = some .running :=
    (began c.id).trans (if_pos rfl)
  have still : ran.thread.state? c.id = some .running := by
    rw [prepares.elsewhere (by simp [running']), running']
  have marked : (ran.thread.setInitState c.id state).ledger = ran.thread.ledger.mark c.id state :=
    Thread.ledger_setInitState (by simp [still]) _
  have begins : machine.Grows (running c machine) := grows_setInitState machine c.id .running
  have grows := (begins.trans prepares.toGrows).trans (grows_setInitState ran c.id state)
  have states := Thread.state?_setInitState (by simp [still] : ran.thread.state? c.id ≠ none) state
  refine ⟨⟨⟨grows, ?_, fun single => ?_⟩, fun id outside known => ?_⟩, ?_⟩
  · show Ledger.Turns ran.classes _ (ran.thread.setInitState c.id state).ledger
    rw [marked]
    refine Ledger.Turns.mono (Ledger.turns_across (fun ledger same more => ?_) ?_) fun _ => grows.mem
    · exact turn ledger (same.trans prepared) more
    · rw [← started]
      exact prepares.ledger
  · have first : (running c machine).thread.Single :=
      single.of_ids (Thread.ids_updateRecord machine.thread c.id _ fun _ => rfl)
    exact (prepares.single first).of_ids (Thread.ids_updateRecord ran.thread c.id _ fun _ => rfl)
  · have apart : id ≠ c.id := by simpa using outside
    have same : (running c machine).thread.state? id = machine.thread.state? id :=
      (began id).trans (if_neg apart)
    refine (states id).trans ?_
    rw [if_neg apart, prepares.elsewhere (by rwa [same]), same]
  · exact (states c.id).trans (if_pos rfl)

/-- The initializer of a class is code, and its frame has been put on the call stack. -/
theorem within_pushInitializer (method : Method) (known : c ∈ machine.classes)
    (prepared : machine.thread.state? c.id = some .prepared)
    (above : ∀ super ∈ c.superId?, machine.thread.ledger.InUse super) :
    Within [c.id] machine (entered c method machine) ∧
      (entered c method machine).thread.initializers = c.id :: machine.thread.initializers ∧
      (entered c method machine).thread.ledger.InUse c.id := by
  have states : (entered c method machine).thread.state? =
      (machine.thread.ledger.mark c.id .running).state :=
    congrArg Ledger.state (ledger_running prepared)
  have ledger : (entered c method machine).thread.ledger =
      { machine.thread.ledger.mark c.id .running with
        active := c.id :: machine.thread.initializers } := by
    unfold Thread.ledger
    rw [states]
    rfl
  refine ⟨.of_mark ((grows_setInitState machine c.id .running).trans (still_pushFrame _ _).toGrows) ?_
    (Thread.ids_updateRecord machine.thread c.id _ fun _ => rfl) states
    (List.mem_singleton_self c.id), congrArg Ledger.active ledger, ?_⟩
  · rw [ledger]
    exact .single (.starts known prepared above)
  · have recorded : (entered c method machine).thread.state? c.id = some .running :=
      (congrFun states c.id).trans ((Ledger.mark_state _ _ _ _).trans (if_pos rfl))
    exact Thread.inUse_of_state? recorded rfl

/-- Whether the call stack is as it was, or the frame of an initializer of the chain is on top. -/
def Answers (chain : List ClassId) (before : Machine) : Bool → Machine → Prop
  | true, after => after.thread.initializers = before.thread.initializers
  | false, after => ∃ id ∈ chain, after.thread.initializers = id :: before.thread.initializers

theorem Answers.mono {chain chain' : List ClassId} {before after : Machine} {ready : Bool}
    (answers : Answers chain before ready after) (more : ∀ id ∈ chain, id ∈ chain') :
    Answers chain' before ready after := by
  cases ready with
  | true => exact answers
  | false =>
      obtain ⟨id, member, top⟩ := answers
      exact ⟨id, more id member, top⟩

/-- The same from another machine with the same initializers on its call stack. -/
theorem Answers.of_eq {chain : List ClassId} {before middle after : Machine} {ready : Bool}
    (answers : Answers chain middle ready after)
    (same : middle.thread.initializers = before.thread.initializers) :
    Answers chain before ready after := by
  cases ready with
  | true => exact Eq.trans answers same
  | false =>
      obtain ⟨id, member, top⟩ := answers
      exact ⟨id, member, same ▸ top⟩

theorem ends_runNative_prepares (native : Option Native) (machine : Machine) :
    (runNative c native).Ends machine (fun _ ran => machine.Prepares ran)
      fun _ ran => machine.Prepares ran := by
  unfold runNative
  split
  · exact ends_throw (Silent.refl _).prepares
  · exact (ends_native_prepares _ _ _).bind fun _ _ prepares => ends_pure prepares

/-- What an initializer does inside of the turn of its class, which fails if it halts. -/
theorem ends_failing_within {α : Type} {action : Exec α} {P : α → Machine → Prop}
    (prepared : machine.thread.state? c.id = some .prepared)
    (runs : action.Ends (running c machine) P fun _ ran => (running c machine).Prepares ran) :
    (failing c.id action).Ends (running c machine) P
      fun _ later => Within [c.id] machine later ∧ later.thread.state? c.id = some .failed :=
  ends_onHalt (runs.mono (fun _ _ ended => ended) fun _ _ prepares =>
    within_across prepared prepares fun _ same _ => .fails same)

/-- Starting the initializer of a class that is prepared, below a superclass in use. The class does
not stay prepared, whatever happens. -/
theorem ends_start_within (known : c ∈ machine.classes)
    (prepared : machine.thread.state? c.id = some .prepared)
    (above : ∀ super ∈ c.superId?, machine.thread.ledger.InUse super) :
    (start c).Ends machine
      (fun ready later => Within [c.id] machine later ∧ Answers [c.id] machine ready later ∧
        later.thread.ledger.InUse c.id)
      fun _ later => Within [c.id] machine later ∧ later.thread.state? c.id = some .failed := by
  refine ends_bind_trace fun traced steady => ?_
  have traces : Within [c.id] machine traced := steady.within
  have ledger : traced.thread.ledger = machine.thread.ledger := steady.silent.ledger
  have initializers := steady.toAside.initializers
  have prepared' : traced.thread.state? c.id = some .prepared := by rwa [steady.still.states]
  have above' : ∀ super ∈ c.superId?, traced.thread.ledger.InUse super :=
    fun super member => ledger ▸ above super member
  have completes (later : Ledger) (same : later.state c.id = some .prepared)
      (more : ∀ other, traced.thread.ledger.InUse other → later.InUse other) :
      Ledger.Turn traced.classes later (later.mark c.id .ready) :=
    .completes (steady.mem known) same fun super member => more super (above' super member)
  split
  · have recorded : traced.thread.state? c.id ≠ none := by simp [prepared']
    have ready := Thread.state?_setInitState recorded .ready c.id
    refine ends_bind_modify (ends_pure ⟨traces.trans ?_, initializers,
      Thread.inUse_of_state? (ready.trans (if_pos rfl)) rfl⟩)
    exact within_setInitState recorded (completes _ prepared' fun _ used => used)
      (List.mem_singleton_self c.id)
  · rename_i method _
    refine ends_bind_modify ?_
    show Exec.Ends _ (running c traced) _ _
    split
    · refine (ends_failing_within prepared' (ends_runNative_prepares _ _)).before
        (fun _ ran prepares => ?_) fun _ _ failed => ⟨traces.trans failed.1, failed.2⟩
      obtain ⟨within, ready⟩ := within_across prepared' prepares completes
      refine ends_bind_modify (ends_pure ⟨traces.trans within, ?_, Thread.inUse_of_state? ready rfl⟩)
      exact prepares.toAside.initializers.trans initializers
    · have pushes : (Exec.pushFrame { Frame.start method with initializing := some c.id }).Ends
          (running c traced) (fun _ later => later = entered c method traced)
          fun _ later => (running c traced).Prepares later :=
        ends_pushFrame (fun _ => rfl) fun _ => (Silent.refl _).prepares
      refine (ends_failing_within prepared' pushes).before (fun _ later pushed => ?_)
        fun _ _ failed => ⟨traces.trans failed.1, failed.2⟩
      subst pushed
      obtain ⟨within, pushed, used⟩ := within_pushInitializer method (steady.mem known) prepared' above'
      refine ends_pure ⟨traces.trans within, ⟨c.id, List.mem_singleton_self c.id, ?_⟩, used⟩
      rw [← initializers]
      exact pushed

/-- The chain of a class that the machine knows, or the rest of one. -/
def Layered (machine : Machine) (chain : List ClassId) : Prop :=
  chain = [] ∨ ∃ c ∈ machine.classes, chain = c.chain

theorem Layered.head {id : ClassId} {supers : List ClassId} (identified : machine.Identified)
    (layered : Layered machine (id :: supers)) (found : machine.classOf? id = some c) :
    c ∈ machine.classes ∧ id = c.id ∧ supers = c.supers ∧ Layered machine c.supers := by
  obtain ⟨d, known, same⟩ := layered.resolve_left (by simp)
  obtain ⟨rfl, rfl⟩ : id = d.id ∧ supers = d.supers := by simpa [LinkedClass.chain] using same
  obtain rfl : d = c := Option.some.inj ((identified.classOf? known).symm.trans found)
  exact ⟨known, rfl, rfl, (identified.layered d known).2⟩

theorem Layered.grows {later : Machine} {chain : List ClassId} (layered : Layered machine chain)
    (grows : machine.Grows later) : Layered later chain :=
  layered.imp_right fun ⟨c, known, same⟩ => ⟨c, grows.mem known, same⟩

/-- Asking for the first class of a chain. If it is ready, it is in use; if not, the initializer of
a class of the chain is on top. -/
theorem ends_initializeChain_within (chain : List ClassId) (identified : machine.Identified)
    (layered : Layered machine chain) :
    (initializeChain chain).Ends machine
      (fun ready later => Within chain machine later ∧ Answers chain machine ready later ∧
        (ready = true → ∀ id ∈ chain.head?, later.thread.ledger.InUse id))
      fun _ later => Within chain machine later := by
  induction chain generalizing machine with
  | nil => exact ends_pure ⟨(Steady.refl machine).within, rfl, by simp⟩
  | cons id supers ih =>
      refine ends_bind_classOf (fun c found => ?_) fun _ => (Steady.refl machine).within
      obtain ⟨known, rfl, rfl, below⟩ := layered.head identified found
      refine (ends_prepare_state c machine).before (fun state prepared ended => ?_)
        fun _ _ prepares => prepares.within
      obtain ⟨prepares, recorded⟩ := ended
      have within : Within (c.id :: c.supers) machine prepared := prepares.within
      have initializers := prepares.toAside.initializers
      have ready {state : InitState} (recorded : prepared.thread.state? c.id = some state)
          (used : InitState.isInUse (some state) = true) :
          ∀ id ∈ (c.id :: c.supers).head?, prepared.thread.ledger.InUse id := by
        rintro _ ⟨⟩
        exact Thread.inUse_of_state? recorded used
      cases state with
      | ready => exact ends_pure ⟨within, initializers, fun _ => ready recorded rfl⟩
      | running => exact ends_pure ⟨within, initializers, fun _ => ready recorded rfl⟩
      | failed => exact ends_throw within
      | prepared =>
          have outside : c.id ∉ c.supers := (List.nodup_cons.mp (identified.layered c known).1).1
          have layered' : Layered prepared c.supers := below.grows within.toGrows
          have waits {asked : Machine} (above : Within c.supers prepared asked) :
              Within (c.id :: c.supers) machine asked ∧
                asked.thread.state? c.id = some .prepared :=
            ⟨within.trans (above.mono fun _ => List.mem_cons_of_mem c.id),
              (above.elsewhere c.id outside (by simp [recorded])).trans recorded⟩
          refine Ends.before (ends_onHalt ((ih (within.identified identified) layered').mono
            (fun _ _ ended => ended) fun _ asked above => ?_)) (fun ready asked ended => ?_)
            fun _ _ failed => failed
          · obtain ⟨within', recorded'⟩ := waits above
            exact within'.trans (within_setInitState (by simp [recorded']) (.fails recorded')
              List.mem_cons_self)
          · obtain ⟨above, answers, used⟩ := ended
            obtain ⟨within', recorded'⟩ := waits above
            cases ready with
            | false =>
                have starts := (answers.mono fun _ => List.mem_cons_of_mem c.id).of_eq initializers
                exact ends_pure ⟨within', starts, fun never => absurd never (by simp)⟩
            | true =>
                refine (ends_start_within (within'.mem known) recorded' (used rfl)).mono
                  (fun ready later ended => ?_) fun _ later ended => ?_
                · obtain ⟨starts, answers', used'⟩ := ended
                  refine ⟨within'.trans (starts.mono (by simp)), ?_, fun _ => by simpa using used'⟩
                  exact (answers'.mono (by simp)).of_eq (Eq.trans answers initializers)
                · exact within'.trans (ended.1.mono (by simp))

/-- Asking for a class that the machine knows. -/
theorem ends_ensureReady_within (identified : machine.Identified) (known : c ∈ machine.classes) :
    (ensureReady c).Ends machine
      (fun ready later => Within c.chain machine later ∧ Answers c.chain machine ready later ∧
        (ready = true → later.thread.ledger.InUse c.id))
      fun _ later => Within c.chain machine later :=
  (ends_initializeChain_within c.chain identified (.inr ⟨c, known, rfl⟩)).mono
    (fun _ _ ended => ⟨ended.1, ended.2.1, fun ready => ended.2.2 ready c.id rfl⟩)
    fun _ _ within => within

end Initialization

end Jvm
