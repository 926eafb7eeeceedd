/-
# Jvm.Proofs.Initialization.Superclass — superclasses first, and no use of what is not initialized

A class comes into use only below a superclass in use (`Settles.above`), and an instruction or a
call uses a class only when it is in use (`inUse_of_ready`, `inUse_of_initializeFully`). So a class
whose initializer has failed is never used again on the thread, and neither is a class below it as
long as nothing in between has begun: asking for such a class halts (`halts_of_barred`), and it
stays barred whatever happens (`Ledger.Course.barred`). A class below the failed one can be used all
the same if the initialization of a class in between came first (`used_below_failed`).
-/
import Jvm.Proofs.Initialization.Demand
import Jvm.Proofs.Initialization.Once

namespace Jvm

set_option autoImplicit false

open Exec Machine

namespace Exec

variable {α β : Type} {action : Exec α} {machine : Machine}

/-- The action halts from the machine. -/
def Halts (action : Exec α) (machine : Machine) : Prop :=
  action.Ends machine (fun _ _ => False) fun _ _ => True

theorem Halts.eq_error (halts : action.Halts machine) :
    ∃ halt later, action machine = .error halt later := by
  cases run : action machine with
  | ok v later => exact (Ends.of_ok halts run).elim
  | error halt later => exact ⟨halt, later, rfl⟩

theorem Halts.bind (halts : action.Halts machine) {next : α → Exec β} :
    (action >>= next).Halts machine :=
  Ends.bind halts fun _ _ never => never.elim

theorem Halts.onHalt (halts : action.Halts machine) {cleanup : Machine → Machine} :
    (onHalt action cleanup).Halts machine :=
  ends_onHalt halts

end Exec

namespace Machine

variable {first last machine before after : Machine} {c : LinkedClass}

/-! ## Superclasses first -/

/-- Every class that has come into use on the thread has a superclass in use, if it has one. -/
def SuperclassFirst (before after : Machine) : Prop :=
  ∀ c ∈ after.classes, ¬ before.thread.ledger.InUse c.id → after.thread.ledger.InUse c.id →
    ∀ super ∈ c.superId?, after.thread.ledger.InUse super

theorem Identified.ledger_apart (identified : machine.Identified) : Ledger.Apart machine.classes :=
  fun _ one _ other same => identified.eq_of_id one other same

theorem Settles.superclassFirst (settles : before.Settles after) (identified : before.Identified) :
    SuperclassFirst before after :=
  fun _ known outside used =>
    settles.turns.above (settles.identified identified).ledger_apart known outside used

theorem recorded_settles (orderly : first.Orderly) : Recorded first.Settles first.Settles where
  weaken _ settles := settles
  calm _ _ calm settles := settles.trans calm.settles
  ready _ _ known settles :=
    (Initialization.ends_ensureReady_within (settles.identified orderly.identified) known).mono
      (fun _ _ ended => settles.trans ended.1.toSettles) fun _ _ within =>
        settles.trans within.toSettles
  native native arguments machine settles :=
    (ends_native_prepares native arguments machine).mono
      (fun _ _ prepares => settles.trans prepares.settles) fun _ _ prepares =>
        settles.trans prepares.settles
  write machine _ _ _ _ settles _ _ _ :=
    settles.trans (silent_putStatic machine _ _ _).prepares.settles
  leave _ _ _ _ settles frames same :=
    (ends_leave_settles (settles.turns.course.inStep (orderly.tidy _ List.mem_cons_self).inStep)
      frames same).mono (fun _ _ leaves => settles.trans leaves) fun _ _ leaves =>
        settles.trans leaves

theorem settles_step (orderly : machine.Orderly) : machine.Settles (step.after machine) :=
  Keeps.after (recorded_settles orderly).step (Calm.refl machine).settles

/-! ## Use -/

theorem inUse_of_ready (orderly : machine.Orderly) (known : c ∈ machine.classes)
    (ran : Initialization.ensureReady c machine = .ok true after) :
    after.thread.ledger.InUse c.id :=
  ((Initialization.ends_ensureReady_within orderly.identified known).of_ok ran).2.2 rfl

/-- A call goes on to its method when the class is in use. -/
theorem inUse_of_initializeFully {fuel tries : Nat} (orderly : machine.Orderly)
    (known : c ∈ machine.classes) (ran : Call.initializeFully fuel c tries machine = .ok () after) :
    after.thread.ledger.InUse c.id := by
  induction tries generalizing machine with
  | zero => cases ran
  | succ tries ih =>
      obtain ⟨_, _, ⟨⟩, ran⟩ := bind_eq_ok.mp ran
      obtain ⟨ready, asked, ensured, ran⟩ := bind_eq_ok.mp ran
      cases ready with
      | true =>
          cases ran
          exact inUse_of_ready orderly known ensured
      | false =>
          obtain ⟨v, again, above, ran⟩ := bind_eq_ok.mp ran
          obtain ⟨advances, orderly'⟩ := (later_round known ensured above).advances orderly
          exact ih orderly' (advances.classes c known) ran

/-! ## Classes that are never used -/

/-- Asking for a barred class halts if asking for its superclass does when that is barred. -/
theorem halts_below (identified : machine.Identified) (known : c ∈ machine.classes)
    (barred : Ledger.Barred machine.classes machine.thread.ledger c.id)
    (above : ∀ prepared, machine.Grows prepared → ∀ super ∈ c.superId?,
      Ledger.Barred prepared.classes prepared.thread.ledger super →
      (Initialization.initializeChain c.supers).Halts prepared) :
    (Initialization.initializeChain c.chain).Halts machine := by
  refine ends_bind_classOf (fun d found => ?_) fun _ => trivial
  obtain rfl : c = d := Option.some.inj ((identified.classOf? known).symm.trans found)
  refine (ends_prepare_state c machine).before (fun state prepared ended => ?_) fun _ _ _ => trivial
  obtain ⟨prepares, recorded⟩ := ended
  have identified' := prepares.identified identified
  have barred' : Ledger.Barred prepared.classes prepared.thread.ledger c.id :=
    prepares.settles.turns.course.barred identified'.ledger_apart
      (barred.mono fun _ => prepares.mem)
  have unused : ¬ InitState.isInUse (some state) = true := recorded ▸ barred'.not_inUse
  cases state with
  | ready => exact absurd rfl unused
  | running => exact absurd rfl unused
  | failed => exact ends_throw trivial
  | prepared =>
      obtain ⟨super, superId, barred''⟩ :=
        barred'.above identified'.ledger_apart (prepares.mem known) recorded
      exact (above prepared prepares.toGrows super superId barred'').onHalt.bind

/-- Asking for a barred class halts. -/
theorem halts_of_barred (identified : machine.Identified) (known : c ∈ machine.classes)
    (barred : Ledger.Barred machine.classes machine.thread.ledger c.id) :
    (Initialization.initializeChain c.chain).Halts machine := by
  induction supers : c.supers generalizing machine c with
  | nil =>
      refine halts_below identified known barred fun _ _ super member _ => ?_
      simp [LinkedClass.superId?, supers] at member
  | cons id rest ih =>
      refine halts_below identified known barred fun prepared grows super member barred' => ?_
      obtain ⟨d, known', chain⟩ := (identified.layered c known).2.resolve_left (by simp [supers])
      obtain ⟨rfl, rfl⟩ : id = d.id ∧ rest = d.supers := by
        simpa [LinkedClass.chain, supers] using chain
      obtain rfl : super = d.id := by simpa [LinkedClass.superId?, supers, eq_comm] using member
      rw [chain]
      exact ih (grows.identified identified) (grows.mem known') barred' rfl

theorem barred_of_failed {id : ClassId} (failed : machine.thread.state? id = some .failed) :
    Ledger.Barred machine.classes machine.thread.ledger id :=
  .failed failed

/-- What is barred is barred from then on. -/
theorem Later.barred (later : Later first last) (orderly : first.Orderly)
    (same : last.thread.number = first.thread.number) {id : ClassId}
    (barred : Ledger.Barred first.classes first.thread.ledger id) :
    Ledger.Barred last.classes last.thread.ledger id := by
  obtain ⟨advances, orderly'⟩ := later.advances orderly
  exact (later.course orderly same).barred orderly'.identified.ledger_apart
    (barred.mono advances.classes)

/-- A step of an instruction that needs a barred class halts. -/
theorem step_of_barred {top : Frame} {below : List Frame} {request : Exec Demand} {demand : Demand}
    {asked : Machine} (identified : machine.Identified) (frames : machine.thread.frames = top :: below)
    (asks : top.request? = some request) (requested : request machine = .ok demand asked)
    (barred : Ledger.Barred machine.classes machine.thread.ledger demand.target.id) :
    ∃ halt later, step machine = .error halt later := by
  obtain ⟨place, steps⟩ := step_of_request frames asks
  obtain ⟨steady, known⟩ := (ends_request asks machine).of_ok requested
  have barred' : Ledger.Barred asked.classes asked.thread.ledger demand.target.id := by
    rw [steady.silent.ledger]
    exact barred.mono fun _ => steady.mem
  have asks := halts_of_barred (steady.identified identified) known barred'
  have serves : (mapFault place (do
      serve (← request)
      return none : Exec (Option Value))).Halts machine :=
    ends_mapFault (ends_bind_run requested asks.bind.bind)
  rw [steps]
  exact serves.eq_error

/-- A call of a method of a barred class halts. -/
theorem run_of_barred {id : ClassId} (identified : machine.Identified) {method : Method}
    (owner : method.owner = some id)
    (barred : Ledger.Barred machine.classes machine.thread.ledger id) (fuel : Nat)
    (arguments : List Value) : ∃ halt later, Call.run fuel method arguments machine = .error halt later := by
  have checked : (Call.runChecked fuel method arguments).Halts (Call.begun machine) := by
    refine ends_bind_ofCause (fun _ _ => ?_) fun _ _ => trivial
    rw [owner]
    refine ends_bind_classOf (fun c found => ?_) fun _ => trivial
    obtain ⟨known, rfl⟩ := mem_of_classOf? found
    cases fuel with
    | zero => exact ends_throw trivial
    | succ fuel =>
        have identified' := dictionary_identified.threads machine (Call.begun machine).thread
          machine.parked identified
        have asks : (Initialization.ensureReady c).Halts (Call.begun machine) :=
          halts_of_barred identified' known barred
        have readies : (Call.initializeFully (fuel + 1) c (fuel + 1)).Halts (Call.begun machine) :=
          ends_bind_thread asks.bind
        exact readies.bind
  have runs : (Call.run fuel method arguments).Halts machine :=
    ends_bind_thread (ends_bind_modify checked.onHalt.bind)
  exact runs.eq_error

/-- Superclasses come first, and nothing is used that is not initialized. The initializer of a class
is started when the class is prepared and its superclass is in use; and whatever a step or a question
does, a class that comes into use has a superclass in use. An instruction that needs a class looks
it up, asks for it, and uses it only if it is in use then; and so does a call. Once a class has
failed on a thread, no instruction and no call that needs it ever comes to its end there, and
neither does one that needs a class below it, as long as neither that class nor one in between had
begun. -/
theorem initialized_before_use :
    (∀ (first asked : Machine) (one c : LinkedClass) (here : Machine),
      Reached (fun _ => True) first → Later first asked → one ∈ asked.classes →
      Initialization.Comes c here one.chain asked →
      here.thread.state? c.id = some .prepared ∧
        ∀ super ∈ c.superId?, here.thread.ledger.InUse super) ∧
    (∀ (first machine : Machine), Reached (fun _ => True) first → Later first machine →
      SuperclassFirst machine (step.after machine) ∧
      (∀ c ∈ machine.classes,
        SuperclassFirst machine ((Initialization.ensureReady c).after machine) ∧
        ∀ fuel tries ready, Call.initializeFully fuel c tries machine = .ok () ready →
          ready.thread.ledger.InUse c.id) ∧
      ∀ (top : Frame) (below : List Frame) (request : Exec Demand),
        machine.thread.frames = top :: below → top.request? = some request →
        (∃ place : Fault → Fault, step machine = mapFault place (do
          serve (← request)
          return none) machine) ∧
        ∀ demand asked ready, request machine = .ok demand asked →
          Initialization.ensureReady demand.target asked = .ok true ready →
          ready.thread.ledger.InUse demand.target.id) ∧
    ∀ (first last : Machine) (id : ClassId), Reached (fun _ => True) first → Later first last →
      last.thread.number = first.thread.number →
      Ledger.Barred first.classes first.thread.ledger id →
      (∀ (top : Frame) (below : List Frame) (request : Exec Demand) (demand : Demand)
        (asked : Machine), last.thread.frames = top :: below → top.request? = some request →
        request last = .ok demand asked → demand.target.id = id →
        ∃ halt later, step last = .error halt later) ∧
      ∀ (method : Method) (fuel : Nat) (arguments : List Value), method.owner = some id →
        ∃ halt later, Call.run fuel method arguments last = .error halt later := by
  refine ⟨fun first asked one c here reached later known comes => ?_,
    fun first machine reached later => ?_, fun first last id reached later same barred => ?_⟩ <;>
    obtain ⟨-, orderly⟩ := later.advances reached.orderly
  · exact (comes.prepared orderly.identified (.inr ⟨one, known, rfl⟩)).2
  · refine ⟨(settles_step orderly).superclassFirst orderly.identified, fun c known => ⟨?_, ?_⟩,
      fun top below request frames asks => ⟨step_of_request frames asks, ?_⟩⟩
    · have settles := (recorded_settles orderly).ready c machine known (Calm.refl machine).settles
      exact Settles.superclassFirst settles.after orderly.identified
    · exact fun _ _ _ ran => inUse_of_initializeFully orderly known ran
    · intro demand asked ready requested ran
      obtain ⟨steady, known⟩ := (ends_request asks machine).of_ok requested
      exact inUse_of_ready (steady.calm.settles.advances orderly).2 known ran
  · have barred' := later.barred reached.orderly same barred
    refine ⟨?_, fun method fuel arguments owner =>
      run_of_barred orderly.identified owner barred' fuel arguments⟩
    rintro top below request demand asked frames asks requested rfl
    exact step_of_barred orderly.identified frames asks requested barred'

/-! ## Three classes -/

/-- The initializer of `E` has been started by that of `C`, and is about to assign `x`. -/
def assigning : Machine := step.after (step.after asking)

theorem later_assigning : Later family assigning :=
  Keeps.after keeps_step_later (Keeps.after keeps_step_later later_asking)

theorem initialized_before_use_family :
    (∃ (c : LinkedClass) (here : Machine) (super : ClassId),
      Initialization.Comes c here c.chain family ∧ c.superId? = some super ∧
      here.thread.state? c.id = some .prepared ∧ here.thread.ledger.InUse super) ∧
    (∃ (top : Frame) (below : List Frame) (request : Exec Demand) (demand : Demand)
        (asked ready : Machine),
      assigning.thread.frames = top :: below ∧ top.request? = some request ∧
      request assigning = .ok demand asked ∧
      Initialization.ensureReady demand.target asked = .ok true ready ∧
      SuperclassFirst assigning (step.after assigning) ∧
      ready.thread.ledger.InUse demand.target.id) ∧
    ∃ (c : LinkedClass) (bar : Method) (last : Machine), failing.thread.state? c.id = some .failed ∧
      last = failing.pushFrame (.start bar) ∧ (∃ halt later, step last = .error halt later) ∧
      ∀ touch ∈ c.methods, ∀ fuel arguments, touch.owner = some c.id →
        ∃ halt later, Call.run fuel touch arguments last = .error halt later := by
  have reached : Reached (fun _ => True) family := .between session_family
  refine ⟨?_, ?_, ?_⟩
  · obtain ⟨c, known, comes, below⟩ : ∃ c ∈ family.classes,
        Initialization.comesTo c c.chain family = true ∧ c.superId?.isSome = true := by
      decide +kernel
    obtain ⟨here, comes⟩ := Initialization.exists_comes comes
    obtain ⟨super, superId⟩ := Option.isSome_iff_exists.mp below
    obtain ⟨prepared, used⟩ :=
      initialized_before_use.1 family family c c here reached .refl known comes
    exact ⟨c, here, super, comes, superId, prepared, used super superId⟩
  · obtain ⟨⟨target, asked⟩, needs, readies⟩ := (Option.any_eq_true _ _).mp (by decide +kernel :
      (requested? assigning).any (fun needs => needs.2.readies? needs.1 = some true) = true)
    obtain ⟨ready, ran⟩ := readies?_eq_some (by simpa using readies)
    obtain ⟨top, below, request, demand, frames, asks, requested, rfl⟩ := requested?_eq_some needs
    obtain ⟨superclassFirst, -, uses⟩ :=
      initialized_before_use.2.1 family assigning reached later_assigning
    exact ⟨top, below, request, demand, asked, ready, frames, asks, requested, ran,
      superclassFirst, (uses top below request frames asks).2 demand asked ready requested ran⟩
  · obtain ⟨c, known, failed, d, known', bar, declared, plain, needs⟩ : ∃ c ∈ failing.classes,
        failing.thread.state? c.id = some .failed ∧ ∃ d ∈ failing.classes, ∃ bar ∈ d.methods,
        (Frame.start bar).initializing = none ∧
        (requested? (failing.pushFrame (.start bar))).any (fun needs => needs.1.id = c.id) = true := by
      decide +kernel
    obtain ⟨⟨target, asked⟩, needs, same⟩ := (Option.any_eq_true _ _).mp needs
    obtain ⟨top, below, request, demand, frames, asks, requested, rfl⟩ := requested?_eq_some needs
    have reached' : Reached (fun _ => True) failing :=
      .between (session_family.calling trivial _ _ _)
    have calm := calm_pushFrame failing plain
    obtain ⟨halts, runs⟩ := initialized_before_use.2.2 failing (failing.pushFrame (.start bar)) c.id
      reached' (.single (.calm calm)) calm.settles.number (barred_of_failed failed)
    exact ⟨c, bar, failing.pushFrame (.start bar), failed, rfl,
      halts top below request demand asked frames asks requested (by simpa using same),
      fun touch _ fuel arguments owner => runs touch fuel arguments owner⟩

/-- A class below a failed one can be used, if a class in between is in use. -/
theorem used_below_failed :
    ¬ ∀ (first last : Machine) (c d : LinkedClass) (method : Method) (fuel : Nat)
      (arguments : List Value) (v : Value) (later : Machine), Reached (fun _ => True) first →
      Later first last → last.thread.number = first.thread.number → c ∈ first.classes →
      d ∈ first.classes → d.isSubclassOf c.id = true → first.thread.state? c.id = some .failed →
      first.thread.ledger.Pending d.id → method.owner = some d.id →
      Call.run fuel method arguments last ≠ .ok v later := by
  intro unused
  obtain ⟨c, known, d, known', method, declared, failed, below, pending, owner, answers⟩ :
      ∃ c ∈ failing.classes, ∃ d ∈ failing.classes, ∃ method ∈ d.methods,
        failing.thread.state? c.id = some .failed ∧ d.isSubclassOf c.id = true ∧
        failing.thread.ledger.Pending d.id ∧ method.owner = some d.id ∧
        (match Call.run 64 method [] failing with
          | .ok _ _ => true
          | .error _ _ => false) = true := by decide +kernel
  have reached : Reached (fun _ => True) failing :=
    .between (session_family.calling trivial _ _ _)
  split at answers
  · rename_i v later ran
    exact unused failing failing c d method 64 [] v later reached .refl rfl known known' below
      failed pending owner ran
  · cases answers

end Machine

end Jvm
