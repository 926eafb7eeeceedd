/-
# Jvm.Proofs.Initialization.Restart — instructions are executed again after an initializer

When a class that an instruction needs is not ready, the step puts the frame of an initializer on
top and touches nothing else (`Interrupts.begins`). Once that initializer has returned, the frame
of the instruction is on top as it was, and asks for the same class again (`Retries.restores`).
Each time another class of the chain has left the state in which it waits, for good
(`Machine.Begins`); so there are no more interruptions than classes in the chain. A call from
outside asks in the same way, and as often (`Call.Rounds`).
-/
import Mathlib.Data.List.Perm.Subperm
import Jvm.Proofs.Initialization.Demand
import Jvm.Proofs.Initialization.Once
import Jvm.Proofs.Machine.Isolation

namespace Jvm

set_option autoImplicit false

open Exec Machine

/-! ## What is done with a class that is ready -/

namespace Exec

variable {machine : Machine} {top : Frame} {below : List Frame} {request : Exec Demand}

theorem enters_initializers (initializers : List ClassId) :
    Enters (·.thread.initializers = initializers) (·.thread.initializers = initializers) where
  weaken _ same := same
  calm _ _ calm same := calm.initializers.trans same
  native native arguments machine same :=
    (ends_native_prepares native arguments machine).mono
      (fun _ _ prepares => prepares.toAside.initializers.trans same)
      fun _ _ prepares => prepares.toAside.initializers.trans same

theorem keeps_initializers {α : Type} (initializers : List ClassId) {action : Exec α}
    (keeps : ∀ machine : Machine, Keeps machine.Calm action) :
    Keeps (·.thread.initializers = initializers) action :=
  (enters_initializers initializers).quiet keeps

/-- What is done with a class that is ready starts no initializer. -/
theorem ends_use {instr : Instr} {length : Nat} {looks : Exec Demand}
    (demands : demand? instr length = some looks) (initializers : List ClassId) :
    looks.Ends machine
      (fun demand _ => Keeps (·.thread.initializers = initializers) demand.use)
      fun _ _ => True := by
  unfold demand? at demands
  split at demands
  · cases demands
    refine ends_bind_any fun pool _ => ends_bind_any fun field _ => ends_pure ?_
    exact keeps_initializers _ fun _ => keeps_bind (keeps_calm fun _ => keeps_read _ _) fun v =>
      keeps_onTop_calm (continues_push_advance v length)
  · cases demands
    refine ends_bind_any fun pool _ => ends_bind_any fun field _ => ends_pure ?_
    refine keeps_bind (keeps_initializers _ fun _ => keeps_onTop_calm (FrameM.continues_pop _))
      fun v => keeps_bind (fun machine same => ?_) fun _ =>
        keeps_initializers _ fun _ => keeps_onTop_calm (FrameM.continues_advance length)
    exact (keeps_write_silent _ _ _ machine (Silent.refl machine)).mono
      (fun _ _ silent => silent.toAside.initializers.trans same)
      fun _ _ silent => silent.toAside.initializers.trans same
  · cases demands
    refine ends_bind_any fun pool _ => ends_bind_any fun c _ => ends_pure ?_
    exact keeps_initializers _ fun _ => keeps_bind (keeps_calm fun _ => keeps_allocate c) fun ref =>
      keeps_onTop_calm (continues_push_advance _ length)
  · cases demands
    refine ends_bind_any fun frame _ => ends_bind_any fun caller _ => ends_bind_any fun method _ => ?_
    cases method.owner with
    | none => exact ends_throw trivial
    | some id =>
        refine ends_bind_any fun c _ => ends_pure ?_
        exact (enters_initializers initializers).callWith .static method length
  · cases demands

theorem keeps_use (asks : top.request? = some request) {demand : Demand} {asked : Machine}
    (requested : request machine = .ok demand asked) (initializers : List ClassId) :
    Keeps (·.thread.initializers = initializers) demand.use := by
  obtain ⟨byte, instr, length, looks, -, -, demands, rfl⟩ := request?_eq_some asks
  obtain ⟨_, traced, -, looked⟩ := bind_eq_ok.mp requested
  exact (ends_use demands initializers).of_ok looked

end Exec

/-! ## One interruption -/

namespace Machine

variable {first last machine started asked again : Machine} {top : Frame} {below : List Frame}
  {request : Exec Demand} {demand : Demand} {c : LinkedClass} {id : ClassId}
  {ids chain : List ClassId}

/-- The frame of the initializer of a class of the chain has been put on the call stack. The class
was waiting until then, and never waits again. -/
structure Begins (chain : List ClassId) (id : ClassId) (machine started : Machine) : Prop where
  member : id ∈ chain
  frames : ∃ initializer : Frame, started.thread.frames = initializer :: machine.thread.frames ∧
    initializer.initializing = some id
  pending : machine.thread.ledger.Pending id
  forGood : ∀ last, Later started last → last.thread.number = machine.thread.number →
    ¬ last.thread.ledger.Pending id

/-- It is the initializer of that class that is on top. -/
theorem Begins.eq_of_frames (begins : Begins chain id machine started) {initializer : Frame}
    {rest : List Frame} {other : ClassId} (frames : started.thread.frames = initializer :: rest)
    (initializes : initializer.initializing = some other) : id = other := by
  obtain ⟨top, frames', initializes'⟩ := begins.frames
  obtain ⟨rfl, -⟩ := List.cons.inj (frames'.symm.trans frames)
  exact Option.some.inj (initializes'.symm.trans initializes)

/-- A class is not ready only if the initializer of a class of its chain has been started. -/
theorem begins_of_asked (orderly : machine.Orderly) (known : c ∈ machine.classes)
    (ran : Initialization.ensureReady c machine = .ok false started) :
    ∃ id, Begins c.chain id machine started := by
  have settled := (Initialization.ends_ensureReady_within orderly.identified known).of_ok ran
  obtain ⟨within, ⟨id, member, active⟩, -⟩ := settled
  have starts : machine.Starts started := by
    simpa using (Initialization.ends_ensureReady c (Aside.refl machine)).of_ok ran
  obtain ⟨grown, d, method, aside, -, -, -, pushed⟩ := starts
  -- the initializer on top is the one that the ledger speaks of
  obtain rfl : d.id = id := by
    have active' : started.thread.initializers = d.id :: grown.thread.initializers := by
      rw [pushed]
      rfl
    exact (List.cons.inj (active'.symm.trans active)).1
  obtain ⟨-, orderly'⟩ := within.toSettles.advances orderly
  obtain ⟨pending, running⟩ := (orderly.tidy _ List.mem_cons_self).inStep.started
    (orderly'.tidy _ List.mem_cons_self).inStep (within.turns.course.leads d.id) active
  refine ⟨d.id, member, ⟨{ Frame.start method with initializing := some d.id }, ?_, rfl⟩, pending, ?_⟩
  · rw [pushed]
    exact congrArg _ aside.frames
  · intro last later same pending
    have leads := (later.course orderly' (same.trans within.number.symm)).leads d.id
    have pending' : InitState.isPending (started.thread.ledger.state d.id) = true :=
      leads.pending pending
    rw [running] at pending'
    cases pending'

/-- A step puts the frame of an initializer on the call stack. -/
structure Interrupts (id : ClassId) (machine started : Machine) : Prop where
  ran : step machine = .ok none started
  deeper : started.thread.depth = machine.thread.depth + 1
  initializes : ∃ (initializer : Frame) (rest : List Frame),
    started.thread.frames = initializer :: rest ∧ initializer.initializing = some id

theorem Interrupts.starts (interrupts : Interrupts id machine started)
    (frames : machine.thread.frames = top :: below) : machine.Starts started := by
  obtain ⟨ran, deeper, initializer, rest, frames', initializes⟩ := interrupts
  have depth := depth_of_frames frames
  obtain ⟨instr, length, -, outcome⟩ := (ends_step_outcome frames).of_ok ran
  cases outcome with
  | starts starts => exact starts
  | stays stays =>
      obtain ⟨frame, -, framesAfter⟩ := stays.frames
      have same := depth_of_frames framesAfter
      omega
  | @enters grown method arguments callee stays room declared made =>
      obtain ⟨locals, rfl⟩ := Frame.withArguments_eq_ok made
      obtain ⟨rfl, -⟩ := List.cons.inj frames'
      cases initializes
  | leaves returns leaves =>
      have left := leaves.length
      rw [← Thread.depth_eq_length] at left
      omega

/-- An instruction is interrupted only because the class that it needs is not ready. -/
theorem Interrupts.asks (interrupts : Interrupts id machine started)
    (frames : machine.thread.frames = top :: below) (asks : top.request? = some request) :
    ∃ demand asked, request machine = .ok demand asked ∧
      Initialization.ensureReady demand.target asked = .ok false started := by
  have ran := interrupts.ran
  obtain ⟨place, steps⟩ := step_of_request frames asks
  rw [steps, mapFault_eq_ok] at ran
  obtain ⟨demand, asked, requested, ran⟩ := bind_eq_ok.mp ran
  obtain ⟨_, served, ran, stops⟩ := bind_eq_ok.mp ran
  obtain ⟨ready, later, ensured, used⟩ := bind_eq_ok.mp ran
  cases stops
  cases ready with
  | false =>
      cases used
      exact ⟨demand, asked, requested, ensured⟩
  | true =>
      -- then the initializers on the call stack would be the same as before
      have steady := ((ends_request asks machine).of_ok requested).1
      have aside : asked.Aside later := by
        simpa using (Initialization.ends_ensureReady demand.target (Aside.refl asked)).of_ok ensured
      have same := (keeps_use asks requested _ later
        (aside.initializers.trans steady.toAside.initializers)).of_ok used
      obtain ⟨grown, d, method, aside', -, -, -, rfl⟩ := interrupts.starts frames
      have more : d.id :: grown.thread.initializers = machine.thread.initializers := same
      rw [aside'.initializers] at more
      exact absurd more (List.cons_ne_self _ _)

theorem Interrupts.begins (interrupts : Interrupts id machine started) (orderly : machine.Orderly)
    (frames : machine.thread.frames = top :: below) (asks : top.request? = some request)
    (requested : request machine = .ok demand asked) :
    Begins demand.target.chain id machine started := by
  obtain ⟨demand', asked', requested', ensured⟩ := interrupts.asks frames asks
  obtain ⟨rfl, rfl⟩ : demand = demand' ∧ asked = asked' := by
    simpa [requested] using requested'
  obtain ⟨steady, known⟩ := (ends_request asks machine).of_ok requested
  have orderly' := (steady.calm.settles.advances orderly).2
  obtain ⟨id', begins⟩ := begins_of_asked orderly' known ensured
  obtain ⟨initializer, rest, framesAfter, initializes⟩ := interrupts.initializes
  obtain rfl := begins.eq_of_frames framesAfter initializes
  -- looking the class up has changed neither the call stack nor the ledger
  refine ⟨begins.member, ?_, ?_, fun last later same =>
    begins.forGood last later (same.trans steady.number.symm)⟩
  · rw [← steady.toAside.frames]
    exact begins.frames
  · rw [← steady.silent.ledger]
    exact begins.pending

/-! ## The classes of a chain, one after the other -/

/-- Different classes of the chain, of which none waits. -/
structure Spent (chain ids : List ClassId) (machine : Machine) : Prop where
  distinct : ids.Nodup
  member : ∀ id ∈ ids, id ∈ chain
  begun : ∀ id ∈ ids, ¬ machine.thread.ledger.Pending id

theorem spent_nil (chain : List ClassId) (machine : Machine) : Spent chain [] machine :=
  ⟨List.nodup_nil, by simp, by simp⟩

/-- There are no more of them than classes in the chain. -/
theorem Spent.length_le (spent : Spent chain ids machine) : ids.length ≤ chain.length :=
  (spent.distinct.subperm spent.member).length_le

theorem Spent.cons (spent : Spent chain ids machine) (begins : Begins chain id machine started)
    (orderly : machine.Orderly) (later : Later machine last) (after : Later started last)
    (same : last.thread.number = machine.thread.number) : Spent chain (id :: ids) last := by
  refine ⟨List.nodup_cons.mpr ⟨fun listed => spent.begun id listed begins.pending, spent.distinct⟩,
    List.forall_mem_cons.mpr ⟨begins.member, spent.member⟩,
    List.forall_mem_cons.mpr ⟨begins.forGood last after same, fun other listed pending => ?_⟩⟩
  exact spent.begun other listed (((later.course orderly same).leads other).pending pending)

/-! ## An instruction that is executed again and again -/

/-- The instruction at which the machine stands has been interrupted by the initializers of the
classes, the last one first; each has run and returned. -/
inductive Retries (first : Machine) : List ClassId → Machine → Prop
  | none : Retries first [] first
  | again {ids : List ClassId} {id : ClassId} {machine started again : Machine}
      (retries : Retries first ids machine) (interrupts : machine.Interrupts id started)
      (runs : Runs machine.thread.depth started again)
      (back : again.thread.depth = machine.thread.depth) : Retries first (id :: ids) again

theorem Interrupts.grows (interrupts : Interrupts id machine started)
    (runs : Runs machine.thread.depth started again) : machine.Grows again :=
  ((keeps_step_grows machine (Grows.refl machine)).of_ok interrupts.ran).trans runs.grows

theorem Interrupts.later (interrupts : Interrupts id machine started)
    (runs : Runs machine.thread.depth started again) : Later machine again :=
  ((keeps_step_later machine .refl).of_ok interrupts.ran).trans runs.later

theorem Retries.grows (retries : Retries first ids last) : first.Grows last := by
  induction retries with
  | none => exact Grows.refl first
  | again retries interrupts runs back ih => exact ih.trans (interrupts.grows runs)

theorem Retries.later (retries : Retries first ids last) : Later first last := by
  induction retries with
  | none => exact .refl
  | again retries interrupts runs back ih => exact ih.trans (interrupts.later runs)

/-- The frame of the instruction is on top again, as it was. -/
theorem Retries.frames (retries : Retries first ids last) (sourced : first.Sourced)
    (frames : first.thread.frames = top :: below) : last.thread.frames = top :: below := by
  induction retries with
  | none => exact frames
  | again retries interrupts runs back ih =>
      exact frames_after_initializer (retries.grows.sourced sourced) ih (interrupts.starts ih) runs back

/-- The instruction asks for the same class again. -/
theorem Retries.requests (retries : Retries first ids last) (sourced : first.Sourced)
    (identified : first.Identified) (frames : first.thread.frames = top :: below)
    (asks : top.request? = some request) (requested : request first = .ok demand asked) :
    ∃ later, request last = .ok demand later := by
  induction retries with
  | none => exact ⟨asked, requested⟩
  | @again ids id machine started again retries interrupts runs back ih =>
      obtain ⟨later, requested'⟩ := ih
      have here := retries.frames sourced frames
      obtain ⟨demand', asked', requested'', ensured⟩ := interrupts.asks here asks
      obtain ⟨rfl, rfl⟩ : demand = demand' ∧ later = asked' := by
        simpa [requested'] using requested''
      have steady := ((ends_request asks machine).of_ok requested').1
      have grows : later.Grows started :=
        (ends_ensureReady_grows demand.target later).of_ok ensured
      have there := (Retries.again retries interrupts runs back).frames sourced frames
      -- between the two requests classes have only been added
      exact (repeats_request asks).again machine later again demand
        (retries.grows.identified identified) requested' (grows.trans runs.grows)
        (there.trans (steady.toAside.frames.trans here).symm)

theorem Retries.spent (retries : Retries first ids last) (sourced : first.Sourced)
    (orderly : first.Orderly) (frames : first.thread.frames = top :: below)
    (asks : top.request? = some request) (requested : request first = .ok demand asked) :
    Spent demand.target.chain ids last := by
  induction retries with
  | none => exact spent_nil _ _
  | @again ids id machine started again retries interrupts runs back ih =>
      have orderly' := (retries.later.advances orderly).2
      obtain ⟨asked', requested'⟩ :=
        retries.requests sourced orderly.identified frames asks requested
      have begins := interrupts.begins orderly' (retries.frames sourced frames) asks requested'
      exact ih.cons begins orderly' (interrupts.later runs) runs.later (interrupts.grows runs).number

end Machine

/-! ## The class of a method that is called from outside -/

namespace Call

variable {fuel tries : Nat} {c : LinkedClass} {first machine last : Machine} {ids : List ClassId}

/-- A call has asked for its class and run the initializers of the classes, the last one first, each
of which has returned. -/
inductive Rounds (fuel : Nat) (c : LinkedClass) (first : Machine) : List ClassId → Machine → Prop
  | none : Rounds fuel c first [] first
  | again {ids : List ClassId} {id : ClassId} {machine asked again : Machine} {v : Value}
      {initializer : Frame} {rest : List Frame} (rounds : Rounds fuel c first ids machine)
      (ensured : Initialization.ensureReady c machine = .ok false asked)
      (frames : asked.thread.frames = initializer :: rest)
      (initializes : initializer.initializing = some id)
      (ran : runAbove machine.thread.depth .void fuel asked = .ok v again) :
      Rounds fuel c first (id :: ids) again

/-- What comes of asking for the class, if no initializer runs and returns. -/
inductive Stops (fuel : Nat) (c : LinkedClass) (last : Machine) :
    EStateM.Result Halt Machine Unit → Prop
  | ready {later : Machine} (ensured : Initialization.ensureReady c last = .ok true later) :
      Stops fuel c last (.ok () later)
  | refused {halt : Halt} {later : Machine}
      (ensured : Initialization.ensureReady c last = .error halt later) :
      Stops fuel c last (.error halt later)
  | cutShort {asked later : Machine} {halt : Halt}
      (ensured : Initialization.ensureReady c last = .ok false asked)
      (ran : runAbove last.thread.depth .void fuel asked = .error halt later) :
      Stops fuel c last (.error halt later)

theorem Rounds.later (rounds : Rounds fuel c first ids last) (orderly : first.Orderly)
    (known : c ∈ first.classes) : Later first last := by
  induction rounds with
  | none => exact .refl
  | again rounds ensured frames initializes ran ih =>
      exact ih.trans (later_round ((ih.advances orderly).1.classes c known) ensured ran)

theorem Rounds.spent (rounds : Rounds fuel c first ids last) (orderly : first.Orderly)
    (known : c ∈ first.classes) : Spent c.chain ids last := by
  induction rounds with
  | none => exact spent_nil _ _
  | @again ids id machine asked again v initializer rest rounds ensured frames initializes ran ih =>
      obtain ⟨advances, orderly'⟩ := (rounds.later orderly known).advances orderly
      have known' := advances.classes c known
      obtain ⟨id', begins⟩ := begins_of_asked orderly' known' ensured
      obtain rfl := begins.eq_of_frames frames initializes
      have grows : machine.Grows again := by
        have asks : machine.Grows asked := (ends_ensureReady_grows c machine).of_ok ensured
        have runs := upholds_runAbove (fun _ grows => grows) keeps_step_grows machine.thread.depth
          .void fuel asked asks
        exact runs.of_ok ran
      exact ih.cons begins orderly' (later_round known' ensured ran) (later_runAbove ran) grows.number

/-- With as many tries as there are classes in the chain, and one more, the tries never run out. -/
theorem Rounds.stops (rounds : Rounds fuel c first ids machine) (orderly : first.Orderly)
    (known : c ∈ first.classes) (enough : c.chain.length < ids.length + tries) :
    ∃ ids last, Rounds fuel c first ids last ∧
      Stops fuel c last (initializeFully fuel c tries machine) := by
  induction tries generalizing ids machine with
  | zero =>
      have bounded := (rounds.spent orderly known).length_le
      omega
  | succ tries ih =>
      have asks : initializeFully fuel c (tries + 1) machine = (do
          if ← Initialization.ensureReady c then return
          let _ ← runAbove machine.thread.depth .void fuel
          initializeFully fuel c tries) machine := rfl
      cases ensured : Initialization.ensureReady c machine with
      | error halt later =>
          have refused : initializeFully fuel c (tries + 1) machine = .error halt later :=
            asks.trans (bind_of_error ensured)
          exact ⟨ids, machine, rounds, refused ▸ .refused ensured⟩
      | ok ready asked =>
          cases ready with
          | true =>
              have answers : initializeFully fuel c (tries + 1) machine = .ok () asked :=
                asks.trans (bind_of_ok ensured)
              exact ⟨ids, machine, rounds, answers ▸ .ready ensured⟩
          | false =>
              obtain ⟨advances, orderly'⟩ := (rounds.later orderly known).advances orderly
              obtain ⟨id, begins⟩ := begins_of_asked orderly' (advances.classes c known) ensured
              obtain ⟨initializer, frames, initializes⟩ := begins.frames
              cases ran : runAbove machine.thread.depth .void fuel asked with
              | error halt later =>
                  have cutShort : initializeFully fuel c (tries + 1) machine = .error halt later :=
                    asks.trans ((bind_of_ok ensured).trans (bind_of_error ran))
                  exact ⟨ids, machine, rounds, cutShort ▸ .cutShort ensured ran⟩
              | ok v again =>
                  have goesOn : initializeFully fuel c (tries + 1) machine =
                      initializeFully fuel c tries again :=
                    asks.trans ((bind_of_ok ensured).trans (bind_of_ok ran))
                  rw [goesOn]
                  refine ih (.again rounds ensured frames initializes ran) ?_
                  rw [List.length_cons]
                  omega

end Call

namespace Machine

/-- Instructions are executed again after an initializer, as if for the first time, and no more often
than there are classes. An instruction that needs a class is interrupted only when that class is not
ready. Then the frame of an initializer comes on top, all frames below being as they were; when it
has returned, the frame of the instruction is on top as it was, and asks for the same class again.
However often this happens, each time it is the initializer of another class of the chain of the
class that is needed, and never again of that one. When a call from outside asks for its class, the
answer is that it is ready, or the frame of such an initializer is put on top; and with one try more
than there are classes in the chain, the tries never run out. -/
theorem restarts_bounded :
    (∀ (first machine : Machine) (top : Frame) (below : List Frame) (request : Exec Demand),
      Reached (fun _ => True) first → Later first machine →
      machine.thread.frames = top :: below → top.request? = some request →
      (∀ id started, machine.Interrupts id started → ∃ demand asked,
        request machine = .ok demand asked ∧
        Initialization.ensureReady demand.target asked = .ok false started) ∧
      ∀ demand asked, request machine = .ok demand asked → ∀ ids last, Retries machine ids last →
        last.thread.frames = top :: below ∧ (∃ later, request last = .ok demand later) ∧
        ids.Nodup ∧ (∀ id ∈ ids, id ∈ demand.target.chain) ∧
        ids.length ≤ demand.target.chain.length ∧
        ∀ id started, last.Interrupts id started → Begins demand.target.chain id last started) ∧
    ∀ (first machine : Machine) (c : LinkedClass), Reached (fun _ => True) first →
      Later first machine → c ∈ machine.classes →
      (∀ asked, Initialization.ensureReady c machine = .ok false asked →
        ∃ id, Begins c.chain id machine asked) ∧
      ∀ fuel tries, c.chain.length < tries → ∃ ids last, Call.Rounds fuel c machine ids last ∧
        ids.Nodup ∧ (∀ id ∈ ids, id ∈ c.chain) ∧ ids.length ≤ c.chain.length ∧
        Call.Stops fuel c last (Call.initializeFully fuel c tries machine) := by
  refine ⟨fun first machine top below request reached later frames asks =>
    ⟨fun id started interrupts => interrupts.asks frames asks,
      fun demand asked requested ids last retries => ?_⟩,
    fun first machine c reached later known =>
      ⟨fun asked ensured => ?_, fun fuel tries enough => ?_⟩⟩ <;>
    obtain ⟨-, orderly⟩ := later.advances reached.orderly
  · have sourced := dictionary_sourced.later later (dictionary_sourced.reached reached)
    have spent := retries.spent sourced orderly frames asks requested
    have again := retries.requests sourced orderly.identified frames asks requested
    refine ⟨retries.frames sourced frames, again, spent.distinct, spent.member, spent.length_le,
      fun id started interrupts => ?_⟩
    obtain ⟨asked', requested'⟩ := again
    exact interrupts.begins (retries.later.advances orderly).2 (retries.frames sourced frames) asks
      requested'
  · exact begins_of_asked orderly known ensured
  · obtain ⟨ids, last, rounds, stops⟩ :=
      Call.Rounds.stops (.none : Call.Rounds fuel c machine [] machine) orderly known
        (by simpa using enough)
    have spent := rounds.spent orderly known
    exact ⟨ids, last, rounds, spent.distinct, spent.member, spent.length_le, stops⟩

/-! ## An initializer that needs another class -/

theorem interrupts_stepped {machine : Machine} (on : machine.stepsOn = true)
    (deeper : (machine.stepped 1).thread.depth = machine.thread.depth + 1)
    (initializes : ((machine.stepped 1).thread.frames.head?.bind Frame.initializing).isSome = true) :
    ∃ id, machine.Interrupts id (machine.stepped 1) := by
  obtain ⟨id, found⟩ := Option.isSome_iff_exists.mp initializes
  obtain ⟨initializer, top, initializes⟩ := Option.bind_eq_some_iff.mp found
  obtain ⟨rest, frames⟩ := List.head?_eq_some_iff.mp top
  exact ⟨id, step_of_stepsOn on, deeper, initializer, rest, frames, initializes⟩

theorem restarts_bounded_family :
    (∃ (top : Frame) (below : List Frame) (request : Exec Demand) (demand : Demand)
        (asked started last : Machine) (id : ClassId), asking.thread.frames = top :: below ∧
      top.request? = some request ∧ request asking = .ok demand asked ∧
      asking.Interrupts id started ∧ Begins demand.target.chain id asking started ∧
      Retries asking [id] last ∧ last.thread.frames = top :: below ∧
      ∃ later, request last = .ok demand later) ∧
    ∃ (c : LinkedClass) (asked : Machine), Initialization.ensureReady c family = .ok false asked ∧
      (∃ id, Begins c.chain id family asked) ∧ c.chain.length < 64 ∧
      ∃ ids last, Call.Rounds 64 c family ids last ∧ ids.length ≤ c.chain.length ∧
        Call.Stops 64 c last (Call.initializeFully 64 c 64 family) := by
  have reached : Reached (fun _ => True) family := .between session_family
  refine ⟨?_, ?_⟩
  · obtain ⟨on, deeper, initializes, steps, back, needs⟩ : asking.stepsOn = true ∧
        (asking.stepped 1).thread.depth = asking.thread.depth + 1 ∧
        ((asking.stepped 1).thread.frames.head?.bind Frame.initializing).isSome = true ∧
        (∀ k < 3, ((asking.stepped 1).stepped k).stepsOn = true ∧
          asking.thread.depth < ((asking.stepped 1).stepped k).thread.depth) ∧
        ((asking.stepped 1).stepped 3).thread.depth = asking.thread.depth ∧
        (requested? asking).isSome = true := by decide +kernel
    obtain ⟨id, interrupts⟩ := interrupts_stepped on deeper initializes
    obtain ⟨⟨target, asked⟩, needs⟩ := Option.isSome_iff_exists.mp needs
    obtain ⟨top, below, request, demand, frames, asks, requested, rfl⟩ := requested?_eq_some needs
    have retries : Retries asking [id] ((asking.stepped 1).stepped 3) :=
      .again .none interrupts (runs_stepped _ _ 3 steps) back
    have bounded :=
      (restarts_bounded.1 family asking top below request reached later_asking frames asks).2 demand
        asked requested
    obtain ⟨frames', again, -, -, -, -⟩ := bounded [id] _ retries
    obtain ⟨-, -, -, -, -, begins⟩ := bounded [] _ .none
    exact ⟨top, below, request, demand, asked, asking.stepped 1, (asking.stepped 1).stepped 3, id,
      frames, asks, requested, interrupts, begins id _ interrupts, retries, frames', again⟩
  · obtain ⟨c, known, waits, short⟩ : ∃ c ∈ family.classes,
        family.readies? c = some false ∧ c.chain.length < 64 := by decide +kernel
    obtain ⟨asked, ensured⟩ := readies?_eq_some waits
    obtain ⟨begins, rounds⟩ := restarts_bounded.2 family family c reached .refl known
    obtain ⟨ids, last, rounds, -, -, bounded, stops⟩ := rounds 64 64 short
    exact ⟨c, asked, ensured, begins asked ensured, short, ids, last, rounds, bounded, stops⟩

end Machine

end Jvm
