/-
# Jvm.Proofs.Initialization.Ledger — how far the classes of a thread have come

A ledger says how far the initialization of each class has come on a thread, and which
initializers are on its call stack. `Ledger.Turn` lists what can become of it while a thread
executes, and `Ledger.Drop` what becomes of it when an error takes an initializer off the stack.
The machine is not mentioned here: `Jvm.Proofs.Initialization.Turns` shows that whatever a machine
does, its ledger takes such turns.

* `Course.leads`: the state of each class moves forward only, and the last two states are final;
* `Course.inStep`: the classes that are running are those whose initializers are on the stack;
* `Turns.above`: a class comes into use below a superclass in use;
* `Course.barred`: a class stays out of use once it or a superclass that it still waits for has
  failed.
-/
import Mathlib.Data.List.Basic
import Mathlib.Logic.Function.Basic
import Mathlib.Logic.Relation
import Jvm.Thread

namespace Jvm

set_option autoImplicit false

open Relation (ReflTransGen)

/-! ## One class -/

namespace InitState

/-- One move of a class; `none` is the state of a class that has no record. -/
inductive Moves : Option InitState → Option InitState → Prop
  | prepare : Moves none (some .prepared)
  | start : Moves (some .prepared) (some .running)
  | skip : Moves (some .prepared) (some .ready)
  | refuse : Moves (some .prepared) (some .failed)
  | finish : Moves (some .running) (some .ready)
  | abandon : Moves (some .running) (some .failed)

/-- Any number of moves. -/
abbrev Leads : Option InitState → Option InitState → Prop := ReflTransGen Moves

/-- The initialization of the class has not started. -/
def isPending : Option InitState → Bool
  | none | some .prepared => true
  | _ => false

/-- The class counts as ready. -/
def isInUse : Option InitState → Bool
  | some .running | some .ready => true
  | _ => false

variable {state later : Option InitState}

theorem not_inUse_of_pending (pending : isPending state = true) : ¬ isInUse state = true := by
  intro used
  match state with
  | none => cases used
  | some .prepared => cases used
  | some .running | some .ready | some .failed => cases pending

/-- Pending, in use, or failed. -/
theorem pending_or_inUse_or_failed (state : Option InitState) :
    isPending state = true ∨ isInUse state = true ∨ state = some .failed := by
  match state with
  | none | some .prepared => exact .inl rfl
  | some .running | some .ready => exact .inr (.inl rfl)
  | some .failed => exact .inr (.inr rfl)

/-- Nothing moves on from where initialization has ended, well or badly. -/
theorem Leads.ended (leads : Leads state later) (ended : state = some .ready ∨ state = some .failed) :
    later = state := by
  induction leads with
  | refl => rfl
  | tail _ moves ih => rcases ended with rfl | rfl <;> subst ih <;> cases moves

/-- No class comes back to where its initialization has not started. -/
theorem Leads.pending (leads : Leads state later) (pending : isPending later = true) :
    isPending state = true := by
  induction leads with
  | refl => exact pending
  | tail _ moves ih => cases moves <;> first | exact ih rfl | cases pending

theorem Leads.running (leads : Leads state later) (running : later = some .running) :
    isPending state = true ∨ state = some .running := by
  induction leads with
  | refl => exact .inr running
  | tail leads moves _ =>
      subst running
      cases moves
      exact .inl (Leads.pending leads rfl)

end InitState

/-! ## All classes of a thread -/

structure Ledger where
  state : ClassId → Option InitState
  /-- The classes whose initializers are on the call stack, the one on top first. -/
  active : List ClassId

namespace Ledger

variable {classes : List LinkedClass} {ledger later : Ledger} {id : ClassId}

def Pending (ledger : Ledger) (id : ClassId) : Prop := InitState.isPending (ledger.state id) = true

def InUse (ledger : Ledger) (id : ClassId) : Prop := InitState.isInUse (ledger.state id) = true

instance (ledger : Ledger) (id : ClassId) : Decidable (ledger.Pending id) :=
  inferInstanceAs (Decidable (_ = true))

/-- A class has come to a state. -/
def mark (ledger : Ledger) (id : ClassId) (state : InitState) : Ledger :=
  { ledger with state := Function.update ledger.state id (some state) }

theorem mark_state (ledger : Ledger) (id other : ClassId) (state : InitState) :
    (ledger.mark id state).state other = if other = id then some state else ledger.state other :=
  Function.update_apply ledger.state id (some state) other

theorem mark_mark (ledger : Ledger) (id : ClassId) (first second : InitState) :
    (ledger.mark id first).mark id second = ledger.mark id second := by
  simp [mark]

theorem mark_comm (ledger : Ledger) {id other : ClassId} (apart : id ≠ other)
    (first second : InitState) :
    (ledger.mark id first).mark other second = (ledger.mark other second).mark id first := by
  simp only [mark, Function.update_comm apart]

/-- What can become of a ledger while a thread executes. A class that comes into use has a
superclass in use, if it has one. -/
inductive Turn (classes : List LinkedClass) (ledger : Ledger) : Ledger → Prop
  | prepares {id : ClassId} (absent : ledger.state id = none) :
      Turn classes ledger (ledger.mark id .prepared)
  /-- The frame of the initializer is put on the call stack. -/
  | starts {c : LinkedClass} (known : c ∈ classes) (prepared : ledger.state c.id = some .prepared)
      (above : ∀ super ∈ c.superId?, ledger.InUse super) :
      Turn classes ledger { ledger.mark c.id .running with active := c.id :: ledger.active }
  /-- There is no initializer, or it was native and has run. -/
  | completes {c : LinkedClass} (known : c ∈ classes)
      (prepared : ledger.state c.id = some .prepared)
      (above : ∀ super ∈ c.superId?, ledger.InUse super) :
      Turn classes ledger (ledger.mark c.id .ready)
  /-- The superclass could not be initialized, or the initializer not be started. -/
  | fails {id : ClassId} (prepared : ledger.state id = some .prepared) :
      Turn classes ledger (ledger.mark id .failed)
  /-- The frame of the initializer returns. -/
  | finishes {id : ClassId} {rest : List ClassId} (running : ledger.state id = some .running)
      (top : ledger.active = id :: rest) :
      Turn classes ledger { ledger.mark id .ready with active := rest }

/-- An error takes the frame of an initializer off the call stack. -/
inductive Drop (ledger : Ledger) : Ledger → Prop
  | abandons {id : ClassId} {rest : List ClassId} (running : ledger.state id = some .running)
      (top : ledger.active = id :: rest) :
      Drop ledger { ledger.mark id .failed with active := rest }

/-- The classes that are running are those whose initializers are on the call stack, each once. -/
structure InStep (ledger : Ledger) : Prop where
  running : ∀ id, ledger.state id = some .running ↔ id ∈ ledger.active
  once : ledger.active.Nodup

/-- Ids tell the classes apart. -/
def Apart (classes : List LinkedClass) : Prop := ∀ c ∈ classes, ∀ d ∈ classes, c.id = d.id → c = d

theorem leads_mark {state : InitState} (moves : InitState.Moves (ledger.state id) (some state))
    (other : ClassId) :
    InitState.Leads (ledger.state other) ((ledger.mark id state).state other) := by
  rw [mark_state]
  by_cases same : other = id
  · rw [if_pos same, same]
    exact .single moves
  · rw [if_neg same]

theorem Turn.leads (turn : Turn classes ledger later) (id : ClassId) :
    InitState.Leads (ledger.state id) (later.state id) := by
  cases turn with
  | prepares absent => exact leads_mark (by rw [absent]; exact .prepare) id
  | starts known prepared above => exact leads_mark (by rw [prepared]; exact .start) id
  | completes known prepared above => exact leads_mark (by rw [prepared]; exact .skip) id
  | fails prepared => exact leads_mark (by rw [prepared]; exact .refuse) id
  | finishes running top => exact leads_mark (by rw [running]; exact .finish) id

theorem Drop.leads (drop : Drop ledger later) (id : ClassId) :
    InitState.Leads (ledger.state id) (later.state id) := by
  cases drop with
  | abandons running top => exact leads_mark (by rw [running]; exact .abandon) id

/-- A class that is not running comes to a state in which it is not running either. -/
theorem InStep.mark {state : InitState} (inStep : ledger.InStep)
    (before : ledger.state id ≠ some .running) (after : state ≠ .running) :
    (ledger.mark id state).InStep := by
  refine ⟨fun other => ?_, inStep.once⟩
  rw [mark_state]
  by_cases same : other = id
  · rw [if_pos same, same]
    exact iff_of_false (by simpa using after) fun active => before ((inStep.running id).mpr active)
  · rw [if_neg same]
    exact inStep.running other

/-- The initializer on top is done. -/
theorem InStep.leave {state : InitState} {rest : List ClassId} (inStep : ledger.InStep)
    (top : ledger.active = id :: rest) (after : state ≠ .running) :
    InStep { ledger.mark id state with active := rest } := by
  have once := inStep.once
  rw [top] at once
  refine ⟨fun other => ?_, (List.nodup_cons.mp once).2⟩
  show (ledger.mark id state).state other = _ ↔ _
  rw [mark_state]
  by_cases same : other = id
  · rw [if_pos same, same]
    exact iff_of_false (by simpa using after) (List.nodup_cons.mp once).1
  · rw [if_neg same, inStep.running other, top]
    simp [same]

/-- A class whose initializer has come on top of the others was pending before, and is running. -/
theorem InStep.started (before : ledger.InStep) (after : later.InStep)
    (leads : InitState.Leads (ledger.state id) (later.state id))
    (active : later.active = id :: ledger.active) :
    ledger.Pending id ∧ later.state id = some .running := by
  have running : later.state id = some .running := by
    rw [after.running id, active]
    exact List.mem_cons_self
  have idle : ledger.state id ≠ some .running := fun running' => by
    have once := after.once
    rw [active, List.nodup_cons] at once
    exact once.1 ((before.running id).mp running')
  exact ⟨(InitState.Leads.running leads running).resolve_right idle, running⟩

theorem Turn.inStep (turn : Turn classes ledger later) (inStep : ledger.InStep) : later.InStep := by
  cases turn with
  | prepares absent => exact inStep.mark (by simp [absent]) (by simp)
  | @starts c known prepared above =>
      have idle : c.id ∉ ledger.active := by
        rw [← inStep.running c.id, prepared]
        simp
      refine ⟨fun other => ?_, List.nodup_cons.mpr ⟨idle, inStep.once⟩⟩
      show (ledger.mark c.id .running).state other = _ ↔ other ∈ c.id :: ledger.active
      rw [mark_state, List.mem_cons]
      by_cases same : other = c.id
      · simp [same]
      · simp [same, inStep.running other]
  | completes known prepared above => exact inStep.mark (by simp [prepared]) (by simp)
  | fails prepared => exact inStep.mark (by simp [prepared]) (by simp)
  | finishes running top => exact inStep.leave top (by simp)

theorem Drop.inStep (drop : Drop ledger later) (inStep : ledger.InStep) : later.InStep := by
  cases drop with
  | abandons running top => exact inStep.leave top (by simp)

theorem Turn.mono {classes' : List LinkedClass} (turn : Turn classes ledger later)
    (more : ∀ c ∈ classes, c ∈ classes') : Turn classes' ledger later := by
  cases turn with
  | prepares absent => exact .prepares absent
  | starts known prepared above => exact .starts (more _ known) prepared above
  | completes known prepared above => exact .completes (more _ known) prepared above
  | fails prepared => exact .fails prepared
  | finishes running top => exact .finishes running top

theorem InUse.mark {state : InitState} {other : ClassId} (inUse : ledger.InUse other)
    (kept : ledger.InUse id → InitState.isInUse (some state) = true) :
    (ledger.mark id state).InUse other := by
  unfold InUse
  rw [mark_state]
  by_cases same : other = id
  · rw [if_pos same]
    exact kept (same ▸ inUse)
  · rwa [if_neg same]

/-- What is in use stays in use while the thread executes. -/
theorem Turn.inUse (turn : Turn classes ledger later) (inUse : ledger.InUse id) :
    later.InUse id := by
  cases turn with
  | prepares absent => exact inUse.mark fun used => by simp [InUse, absent, InitState.isInUse] at used
  | starts known prepared above => exact inUse.mark fun _ => rfl
  | completes known prepared above => exact inUse.mark fun _ => rfl
  | fails prepared => exact inUse.mark fun used => by simp [InUse, prepared, InitState.isInUse] at used
  | finishes running top => exact inUse.mark fun _ => rfl

/-- A class that comes into use by a turn has a superclass in use. -/
theorem Turn.above (turn : Turn classes ledger later) (apart : Apart classes) {c : LinkedClass}
    (known : c ∈ classes) (before : ¬ ledger.InUse c.id) (after : later.InUse c.id) :
    ∀ super ∈ c.superId?, ledger.InUse super := by
  have elsewhere {id : ClassId} {state : InitState} (distinct : c.id ≠ id)
      (used : (ledger.mark id state).InUse c.id) : False := by
    unfold InUse at used
    rw [mark_state, if_neg distinct] at used
    exact before used
  cases turn with
  | @prepares id absent =>
      by_cases same : c.id = id
      · simp [InUse, mark_state, same, InitState.isInUse] at after
      · exact (elsewhere same after).elim
  | @starts d known' prepared above =>
      by_cases same : c.id = d.id
      · rwa [apart c known d known' same]
      · exact (elsewhere same after).elim
  | @completes d known' prepared above =>
      by_cases same : c.id = d.id
      · rwa [apart c known d known' same]
      · exact (elsewhere same after).elim
  | @fails id prepared =>
      by_cases same : c.id = id
      · simp [InUse, mark_state, same, InitState.isInUse] at after
      · exact (elsewhere same after).elim
  | @finishes id rest running top =>
      by_cases same : c.id = id
      · exact absurd (by simp [InUse, same, running, InitState.isInUse]) before
      · exact (elsewhere same after).elim

/-! ## Turns in sequence -/

/-- What becomes of a ledger while a thread executes. -/
abbrev Turns (classes : List LinkedClass) : Ledger → Ledger → Prop := ReflTransGen (Turn classes)

/-- What becomes of a ledger while a thread executes and errors unwind its call stack. -/
abbrev Course (classes : List LinkedClass) : Ledger → Ledger → Prop :=
  ReflTransGen fun ledger later => Turn classes ledger later ∨ Drop ledger later

theorem Turns.mono {classes' : List LinkedClass} (turns : Turns classes ledger later)
    (more : ∀ c ∈ classes, c ∈ classes') : Turns classes' ledger later :=
  ReflTransGen.mono (fun _ _ turn => turn.mono more) _ _ turns

theorem Course.mono {classes' : List LinkedClass} (course : Course classes ledger later)
    (more : ∀ c ∈ classes, c ∈ classes') : Course classes' ledger later :=
  ReflTransGen.mono (fun _ _ change => change.imp_left fun turn => turn.mono more) _ _ course

/-- While the initializer of a class runs in one turn of the class, another class may be prepared:
that turn comes first. -/
theorem turns_across {state : InitState}
    (turn : ∀ ledger' : Ledger, ledger'.state id = ledger.state id →
      (∀ other, ledger.InUse other → ledger'.InUse other) →
      Turn classes ledger' (ledger'.mark id state))
    (prepares : later = ledger.mark id .running ∨ ∃ other,
      (ledger.mark id .running).state other = none ∧
        later = (ledger.mark id .running).mark other .prepared) :
    Turns classes ledger (later.mark id state) := by
  rcases prepares with rfl | ⟨other, absent, rfl⟩
  · rw [mark_mark]
    exact .single (turn ledger rfl fun _ used => used)
  · rw [mark_state] at absent
    have apart : id ≠ other := by
      rintro rfl
      simp at absent
    rw [if_neg apart.symm] at absent
    rw [mark_comm ledger apart, mark_mark]
    refine .head (.prepares absent) (.single (turn _ ?_ fun other' used => ?_))
    · rw [mark_state, if_neg apart]
    · have prepares : Turn classes ledger _ := .prepares absent
      exact prepares.inUse used

theorem Turns.course (turns : Turns classes ledger later) : Course classes ledger later :=
  ReflTransGen.mono (fun _ _ turn => .inl turn) _ _ turns

theorem Course.leads (course : Course classes ledger later) (id : ClassId) :
    InitState.Leads (ledger.state id) (later.state id) := by
  induction course with
  | refl => exact .refl
  | tail _ change ih => exact ih.trans (change.elim (·.leads id) (·.leads id))

theorem Course.inStep (course : Course classes ledger later) (inStep : ledger.InStep) :
    later.InStep := by
  induction course with
  | refl => exact inStep
  | tail _ change ih => exact change.elim (·.inStep ih) (·.inStep ih)

theorem Turns.inUse (turns : Turns classes ledger later) (inUse : ledger.InUse id) :
    later.InUse id := by
  induction turns with
  | refl => exact inUse
  | tail _ turn ih => exact turn.inUse ih

theorem Turns.above (turns : Turns classes ledger later) (apart : Apart classes) {c : LinkedClass}
    (known : c ∈ classes) (before : ¬ ledger.InUse c.id) (after : later.InUse c.id) :
    ∀ super ∈ c.superId?, later.InUse super := by
  induction turns with
  | refl => exact absurd after before
  | @tail middle last _ turn ih =>
      intro super member
      by_cases used : middle.InUse c.id
      · exact turn.inUse (ih used super member)
      · exact turn.inUse (turn.above apart known used after super member)

/-! ## Classes that never come into use -/

/-- The class has failed, or its initialization has not started and the superclass that it waits for
is barred. -/
inductive Barred (classes : List LinkedClass) (ledger : Ledger) : ClassId → Prop
  | failed {id : ClassId} (failed : ledger.state id = some .failed) : Barred classes ledger id
  | waits {c : LinkedClass} {super : ClassId} (known : c ∈ classes) (above : c.superId? = some super)
      (pending : ledger.Pending c.id) (barred : Barred classes ledger super) :
      Barred classes ledger c.id

theorem Barred.not_inUse (barred : Barred classes ledger id) : ¬ ledger.InUse id := by
  cases barred with
  | failed failed => simp [InUse, failed, InitState.isInUse]
  | waits known above pending barred => exact InitState.not_inUse_of_pending pending

/-- A class that waits is barred by its superclass. -/
theorem Barred.above {c : LinkedClass} (barred : Barred classes ledger c.id) (apart : Apart classes)
    (known : c ∈ classes) (waits : ledger.state c.id = some .prepared) :
    ∃ super ∈ c.superId?, Barred classes ledger super := by
  generalize same : c.id = id at barred
  cases barred with
  | failed failed =>
      rw [← same, waits] at failed
      cases failed
  | @waits d super known' superId pending barred =>
      obtain rfl := apart c known d known' same
      exact ⟨super, superId, barred⟩

theorem Barred.mono {classes' : List LinkedClass} (barred : Barred classes ledger id)
    (more : ∀ c ∈ classes, c ∈ classes') : Barred classes' ledger id := by
  induction barred with
  | failed failed => exact .failed failed
  | waits known above pending barred ih => exact .waits (more _ known) above pending ih

/-- Barred classes stay barred if all classes move forward only, and come into use only below a
superclass in use. -/
theorem Barred.change (barred : Barred classes ledger id)
    (leads : ∀ id, InitState.Leads (ledger.state id) (later.state id))
    (above : ∀ c ∈ classes, ¬ ledger.InUse c.id → later.InUse c.id →
      ∀ super ∈ c.superId?, ledger.InUse super) : Barred classes later id := by
  induction barred with
  | @failed id failed =>
      have leads' := leads id
      rw [failed] at leads'
      exact .failed (leads'.ended (.inr rfl))
  | @waits c super known superId pending barred ih =>
      rcases InitState.pending_or_inUse_or_failed (later.state c.id) with pending' | used | failed
      · exact .waits known superId pending' ih
      · have outside : ¬ ledger.InUse c.id := InitState.not_inUse_of_pending pending
        exact absurd (above c known outside used super superId) barred.not_inUse
      · exact .failed failed

theorem Drop.above (drop : Drop ledger later) (before : ¬ ledger.InUse id) : ¬ later.InUse id := by
  cases drop with
  | @abandons top rest running _ =>
      unfold InUse
      show ¬ InitState.isInUse ((ledger.mark top .failed).state id) = true
      rw [mark_state]
      by_cases same : id = top
      · simp [same, InitState.isInUse]
      · rwa [if_neg same]

theorem Course.barred (course : Course classes ledger later) (apart : Apart classes)
    (barred : Barred classes ledger id) : Barred classes later id := by
  induction course with
  | refl => exact barred
  | tail _ change ih =>
      rcases change with turn | drop
      · exact ih.change turn.leads fun c known before after => turn.above apart known before after
      · exact ih.change drop.leads fun c _ before after => absurd after (drop.above before)

end Ledger

end Jvm
