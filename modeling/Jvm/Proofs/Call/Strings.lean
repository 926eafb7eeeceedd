/-
# Jvm.Proofs.Call.Strings — strings have texts unless `new` makes them

The class of strings is a class like any other to `new`, which makes a string whose hidden slot
holds no text. In a session in which no call executes a `new` of that class, every string of every
thread has a text, and exactly the strings have one, so printing never finds a string without a
text. Every such `new` that is done leaves a string without a text, and printing it aborts.
-/
import Jvm.Proofs.Call.InstanceFields
import Jvm.Proofs.Call.StaticFields
import Jvm.Proofs.Machine.Strings

namespace Jvm

set_option autoImplicit false

open Exec Machine

namespace Machine

/-- The name of the class of which the next instruction makes an object, if it is a `new`. -/
def instantiated? (machine : Machine) : Option String := do
  let top ← machine.thread.frames.head?
  match ← top.next? with
  | (.allocate index, _) =>
      let c ← machine.classOf? (← top.method.owner)
      (c.pool.className index).toOption
  | _ => none

/-- The call executes no `new` of the class of strings. -/
def MakesNoString (machine : Machine) (method : Method) (arguments : List Value) : Prop :=
  ∀ passed, Call.Steps method arguments machine passed → passed.instantiated? ≠ some stringClass

/-- The reference is to a string without a text, and printing it is a violation. -/
def Blank (machine : Machine) (ref : Ref) : Prop :=
  (∃ object, machine.object? ref = some object ∧ machine.IsString object) ∧
    machine.text? ref = none ∧ ∀ kind : PrintKind,
      Native.printedText kind (.ref (some ref)) machine =
        .error (.violation .textlessString) machine

end Machine

namespace Exec

variable {machine : Machine} {top : Frame} {below : List Frame}

/-- The class that `new` finds has the name that the pool gives. -/
theorem ends_resolveNew_named (pool : Pool) (index : Int) :
    (Linking.resolveNew pool index).Ends machine
      (fun c later => pool.className index = .ok c.name ∧ later.findClass? c.name = some c)
      fun _ _ => True := by
  refine ends_bind_ofFault (fun name found => ?_) fun _ _ => trivial
  refine (Loading.ends_resolve name (Steady.refl machine)).before (fun c later found' => ?_)
    fun _ _ _ => trivial
  have named : c.name = name := by simpa using List.find?_some found'.2
  exact ends_guard (fun _ => trivial) fun _ => ends_pure ⟨named ▸ found, named ▸ found'.2⟩

theorem ends_currentPool_of (frames : machine.thread.frames = top :: below) :
    currentPool.Ends machine
      (fun pool later => later = machine ∧
        ∃ c, top.method.owner.bind machine.classOf? = some c ∧ c.pool = pool)
      fun _ _ => True := by
  refine ends_bind_topFrame frames ((ends_holder top).before (fun c later found => ?_)
    fun _ _ _ => trivial)
  obtain ⟨rfl, holder⟩ := found
  exact ends_pure ⟨rfl, c, holder, rfl⟩

/-- What the next instruction makes an object of. -/
theorem instantiated?_eq (frames : machine.thread.frames = top :: below) {index length : Nat}
    (next : top.next? = some (.allocate index, length)) {c : LinkedClass}
    (holder : top.method.owner.bind machine.classOf? = some c) :
    machine.instantiated? = (c.pool.className index).toOption := by
  obtain ⟨id, owner, found⟩ := Option.bind_eq_some_iff.mp holder
  unfold instantiated?
  rw [frames]
  simp [next, owner, found]

theorem exists_of_instantiated? {name : String} (makes : machine.instantiated? = some name) :
    ∃ top below index length c, machine.thread.frames = top :: below ∧
      top.next? = some (.allocate index, length) ∧
      top.method.owner.bind machine.classOf? = some c ∧ c.pool.className index = .ok name := by
  unfold instantiated? at makes
  obtain ⟨top, first, makes⟩ := Option.bind_eq_some_iff.mp makes
  obtain ⟨below, frames⟩ := List.head?_eq_some_iff.mp first
  obtain ⟨⟨instr, length⟩, next, makes⟩ := Option.bind_eq_some_iff.mp makes
  cases instr with
  | allocate index =>
      obtain ⟨id, owner, makes⟩ := Option.bind_eq_some_iff.mp makes
      obtain ⟨c, found, makes⟩ := Option.bind_eq_some_iff.mp makes
      refine ⟨top, below, index, length, c, frames, next,
        Option.bind_eq_some_iff.mpr ⟨id, owner, found⟩, ?_⟩
      cases read : c.pool.className index with
      | error fault => rw [read] at makes; cases makes
      | ok found => rw [read] at makes; exact congrArg _ (Option.some.inj makes)
  | _ => cases makes

/-- A step keeps the texts of strings, unless it executes a `new` of their class. -/
theorem ends_step_texted (other : machine.instantiated? ≠ some stringClass)
    (texted : machine.Texted) : step.Ends machine (fun _ => Texted) fun _ => Texted := by
  cases frames : machine.thread.frames with
  | nil =>
      have stops : topFrame.Ends machine (fun _ _ => False) fun _ => Texted := by
        refine ends_bind_get ?_
        rw [frames]
        exact texted
      exact stops.before (fun _ _ impossible => impossible.elim) fun _ _ left => left
  | cons top below =>
      have handles (length : Nat) : Handles length Texted Texted :=
        objectProperty_texted.basics.handles fun field machine declared _ texted =>
          ends_setField_texted texted declared length
      have traces (opcode : Nat) : Keeps (fun later => later.Texted ∧
          ∃ log, later = { machine with log := log }) (traceInstruction opcode) := by
        rintro later ⟨texted, log, rfl⟩
        refine ends_bind_get ?_
        split
        · refine keeps_topFrame.before ⟨texted, log, rfl⟩ (fun frame later known => ?_)
            fun _ _ known => known
          obtain ⟨texted, log, rfl⟩ := known
          have logs (wanted : Options → Bool) (line : String) :
              (trace wanted line).Ends { machine with log := log }
                (fun _ later => ∃ log, later = { machine with log := log })
                fun _ later => ∃ log, later = { machine with log := log } := by
            refine ends_modify ?_
            split <;> exact ⟨_, rfl⟩
          exact (objectProperty_texted.basics.traces _ _ _ texted).and (logs _ _)
        · exact ⟨texted, log, rfl⟩
      refine ends_step_of (fun later => later.Texted ∧ ∃ log, later = { machine with log := log })
        frames ⟨texted, machine.log, rfl⟩ traces (fun _ known => known.1)
        fun instr length traced next known => ?_
      obtain ⟨texted', log, rfl⟩ := known
      refine (handles length).ends_execute texted' instr fun index instr_eq => ?_
      refine (handles length).ends_create texted' fun pool c linked ready read found known kept => ?_
      refine ends_allocate_of kept (kept.addObject known fun string => other ?_)
      have frames' : { machine with log := log }.thread.frames = top :: below := frames
      obtain ⟨-, d, holder, rfl⟩ := (ends_currentPool_of frames').of_ok read
      have named := ((ends_resolveNew_named d.pool index).of_ok found).1
      rw [instantiated?_eq frames (instr_eq ▸ next) holder, named, string]
      rfl

/-! ## A `new` of the class of strings -/

/-- A class without initializers above it and of its own is ready when it is asked to be. -/
theorem ends_initializeChain_plain {chain : List ClassId}
    (plain : ∀ id ∈ chain, ∃ c ∈ builtinClasses, c.id = id ∧ c.initializer? = none)
    (identified : machine.Identified) (builtins : machine.HasBuiltins) :
    (Initialization.initializeChain chain).Ends machine (fun ready _ => ready = true)
      fun _ _ => True := by
  induction chain generalizing machine with
  | nil => exact ends_pure rfl
  | cons id supers ih =>
      refine ends_bind_classOf (fun c found => ?_) fun _ => trivial
      obtain ⟨known, rfl⟩ := mem_of_classOf? found
      obtain ⟨d, listed, same, none⟩ := plain c.id List.mem_cons_self
      obtain rfl := identified.eq_of_id (List.mem_of_find?_eq_some (builtins d listed)) known same
      refine (keeps_prepare d).before (Aside.refl machine) (fun state prepared aside => ?_)
        fun _ _ _ => trivial
      have identified' := aside.toGrows.identified identified
      have builtins' := aside.toGrows.hasBuiltins builtins
      cases state with
      | ready => exact ends_pure rfl
      | running => exact ends_pure rfl
      | failed => exact ends_throw trivial
      | prepared =>
          have above := ih (fun other member => plain other (List.mem_cons_of_mem _ member))
            identified' builtins'
          refine (ends_onHalt (above.mono (fun _ _ ended => ended) fun _ _ _ => trivial)).bind
            fun ready later ended => ?_
          rw [if_pos ended]
          refine (keeps_trace _ _).before (Steady.refl later) (fun _ _ _ => ?_) fun _ _ _ => trivial
          rw [none]
          exact ends_bind_modify (ends_pure rfl)

/-- A string that is allocated like any other object has no text, and printing it is a violation. -/
theorem blank_allocated (founded : machine.Founded) {c : LinkedClass}
    (found : machine.findClass? stringClass = some c) {ref : Ref}
    (held : machine.object? ref = some (.ofClass c)) : machine.Blank ref := by
  have hidden : (Object.ofClass c).fields[c.firstHiddenSlot]? = some (.text none) := by
    have type := founded.builtins.slotType_text found
    show ((c.slotTypes.map Object.initialValue).toArray)[c.firstHiddenSlot]? = some (.text none)
    rw [List.getElem?_toArray, List.getElem?_map, type]
    rfl
  have textless : machine.text? ref = none := by
    unfold text?
    rw [held, found]
    dsimp only
    rw [if_pos (show (Object.ofClass c).classId = c.id from rfl), hidden]
  refine ⟨⟨_, held, c, found, rfl⟩, textless, fun kind => ?_⟩
  have named : c.id.name = stringClass := by
    have name : c.name = stringClass := by simpa using List.find?_some found
    exact (founded.identified.named c (List.mem_of_find?_eq_some found)).1.trans name
  have prints : Native.referenceText (some ref) machine =
      .error (.violation .textlessString) machine := by
    have found' : object ref machine = .ok (.ofClass c) machine := by
      unfold object
      rw [bind_get, held]
      rfl
    unfold Native.referenceText
    dsimp only
    rw [bind_get, textless]
    dsimp only
    rw [bind_of_ok found', if_pos (show (Object.ofClass c).classId.name = stringClass from named)]
    rfl
  cases kind <;> exact prints

theorem ends_onTop_objects (founded : machine.Founded) {α : Type} (action : FrameM α) :
    (onTop action).Ends machine
      (fun _ later => later.Founded ∧ later.classes = machine.classes ∧
        ∀ ref, later.object? ref = machine.object? ref)
      fun _ _ => True := by
  cases frames : machine.thread.frames with
  | nil => exact ends_onTop_nil frames trivial
  | cons top below =>
      refine ends_onTop frames (fun _ frame _ => ?_) fun _ _ _ => trivial
      obtain ⟨founded', objects⟩ :=
        founded.beside (fun thread => thread.popFrame.pushFrame frame) rfl rfl
      exact ⟨founded', rfl, objects⟩

/-- Of the class of strings, `new` makes a string without a text. -/
theorem ends_create_blank (stored : machine.Stored) (frames : machine.thread.frames = top :: below)
    {index : Nat} {d : LinkedClass} (holder : top.method.owner.bind machine.classOf? = some d)
    (named : d.pool.className index = .ok stringClass) (length : Nat) :
    (create index length).Ends machine (fun _ later => ∃ ref, later.Blank ref) fun _ _ => True := by
  refine (ends_currentPool_of frames).before (fun pool here read => ?_) fun _ _ _ => trivial
  obtain ⟨rfl, e, holder', rfl⟩ := read
  obtain rfl := Option.some.inj (holder.symm.trans holder')
  have finds := (ends_resolveNew_named d.pool index).and
    ((Linking.keeps_resolveNew objectProperty_stored.keeps_resolve d.pool index here stored).mono
      (fun _ _ stored => stored) fun _ _ _ => trivial)
  refine finds.before (fun c linked found => ?_) fun _ _ _ => trivial
  obtain ⟨⟨named', found⟩, stored'⟩ := found
  have name : c.name = stringClass := Except.ok.inj (named'.symm.trans named)
  rw [name] at found
  obtain ⟨e, listed, found', -, -, -⟩ := stored'.builtins.exists_string
  obtain rfl := Option.some.inj (found.symm.trans found')
  have plain : ∀ id ∈ c.chain, ∃ d ∈ builtinClasses, d.id = id ∧ d.initializer? = none := by
    have all : ∀ c ∈ builtinClasses, c.name = stringClass →
        ∀ id ∈ c.chain, ∃ d ∈ builtinClasses, d.id = id ∧ d.initializer? = none := by
      decide +kernel
    exact all c listed name
  have asks := (ends_initializeChain_plain plain stored'.identified stored'.builtins).and
    ((objectProperty_stored.basics.keeps_ensureReady c linked stored').mono (fun _ _ stored => stored)
      fun _ _ _ => trivial)
  refine asks.before (fun ready asked ended => ?_) fun _ _ _ => trivial
  obtain ⟨rfl, stored''⟩ := ended
  refine (ends_allocate c asked).before (fun ref made ended => ?_) fun _ _ _ => trivial
  obtain ⟨rfl, rfl⟩ := ended
  have founded := stored''.toFounded.addObject c
  refine (ends_onTop_objects founded _).mono (fun _ later ended => ⟨asked.thread.nextRef, ?_⟩)
    fun _ _ _ => trivial
  obtain ⟨founded', classes', objects'⟩ := ended
  have found'' : later.findClass? stringClass = some c :=
    (stored'.builtins.string_eq founded'.builtins).trans found
  exact blank_allocated founded' found'' (by rw [objects', object?_addObject, if_pos rfl])

end Exec

namespace Machine

variable {machine : Machine}

/-- Exactly the references to strings have a text. -/
theorem Texted.text?_eq_none_iff (texted : machine.Texted) (ref : Ref) :
    machine.text? ref = none ↔
      ∀ object, machine.object? ref = some object → ¬ machine.IsString object := by
  obtain ⟨c, -, found, -⟩ := texted.builtins.exists_string
  unfold text?
  cases held : machine.object? ref with
  | none => simp
  | some object =>
      rw [found]
      dsimp only
      by_cases string : object.classId = c.id
      · rw [if_pos string]
        obtain ⟨d, text, found', slot⟩ := texted.texts ref object held ⟨c, found, string⟩
        obtain rfl := Option.some.inj (found.symm.trans found')
        rw [slot]
        exact iff_of_false (by simp) fun none => none object rfl ⟨c, found, string⟩
      · rw [if_neg string]
        refine iff_of_true rfl fun other same => ?_
        obtain rfl := Option.some.inj same
        rintro ⟨d, found', string'⟩
        obtain rfl := Option.some.inj (found.symm.trans found')
        exact string string'

/-- What is printed is never a string without a text. -/
theorem Texted.ends_print (texted : machine.Texted) (one : machine.OneString) (kind : PrintKind)
    (endsLine : Bool) (arguments : List Value) :
    ((Native.print kind endsLine).run arguments).Ends machine (fun _ _ => True)
      fun halt _ => halt ≠ .violation .textlessString := by
  have references (v : Option Ref) : (Native.referenceText v).Ends machine (fun _ _ => True)
      fun halt _ => halt ≠ .violation .textlessString := by
    cases v with
    | none => exact ends_pure trivial
    | some ref =>
        refine ends_bind_get ?_
        split
        · exact ends_pure trivial
        · rename_i textless
          refine ends_bind_object (fun object held => ?_) fun _ => by simp
          have other : object.classId.name ≠ stringClass := fun name => by
            obtain ⟨c, known, id⟩ := texted.classed ref object held
            have named : c.name = stringClass :=
              (texted.identified.named c known).1.symm.trans (id ▸ name)
            exact (texted.text?_eq_none_iff ref).mp textless object held
              ⟨c, one.found known named, id.symm⟩
          exact ends_guard (fun name => absurd name other) fun _ => ends_pure trivial
  have prints : (Native.printedText kind (Native.argument arguments 1)).Ends machine
      (fun _ _ => True) fun halt _ => halt ≠ .violation .textlessString := by
    unfold Native.printedText
    split <;> first | exact ends_pure trivial | exact references _
  refine prints.bind fun text later _ => ?_
  exact ends_bind_modify (ends_pure trivial)

theorem Founded.texted (founded : machine.Founded) (none : ∀ ref, machine.object? ref = none) :
    machine.Texted := by
  refine ⟨founded, fun ref object found => ?_, fun ref object found => ?_⟩
  all_goals
    rw [none] at found
    cases found

/-- In a session of calls that execute no `new` of the class of strings, every string of every
thread has a text, exactly the references to strings have one, and printing never finds a string
without a text. Any step that executes such a `new` and answers leaves a string without a text,
which to print is a violation. -/
theorem strings_have_texts_unless_made_by_new (machine : Machine) :
    (Attained MakesNoString machine →
      (∀ thread ∈ machine.threads, ∀ object ∈ thread.heap.objects,
        machine.IsString object → machine.HasText object) ∧
      (∀ ref, machine.text? ref = none ↔
        ∀ object, machine.object? ref = some object → ¬ machine.IsString object) ∧
      ∀ (kind : PrintKind) (endsLine : Bool) (arguments : List Value) (later : Machine),
        (Native.print kind endsLine).run arguments machine ≠
          .error (.violation .textlessString) later) ∧
    (Reached (fun _ => True) machine → machine.instantiated? = some stringClass →
      ∀ answer later, step machine = .ok answer later → ∃ ref, later.Blank ref) := by
  refine ⟨fun attained => ?_, fun reached string answer later ran => ?_⟩
  · have endures : Endures MakesNoString Texted := objectProperty_texted.endures
      (fun _ founded none => founded.texted none)
      fun texted granted passes => (objectProperty_texted.basics.preserves
        (fun _ other texted => ends_step_texted other texted) _ _).passes granted passes texted
    have texted := endures.attained attained
    have one := (dictionary_oneString.endures MakesNoString).attained attained
    refine ⟨fun thread member object held => ?_, texted.text?_eq_none_iff,
      fun kind endsLine arguments later ran => ?_⟩
    · obtain ⟨ref, found⟩ := texted.numbered.exists_ref member held
      exact texted.texts ref object found
    · exact (texted.ends_print one kind endsLine arguments).of_error ran rfl
  · have stored : machine.Stored := lasting_stored.reached reached
    obtain ⟨top, below, index, length, c, frames, next, holder, named⟩ := exists_of_instantiated? string
    obtain ⟨id, owner, known⟩ := Option.bind_eq_some_iff.mp holder
    have ended : step.Ends machine (fun _ later => ∃ ref, later.Blank ref) fun _ _ => True := by
      refine ends_step_of_execute stored frames next fun traced stored' grows frames' _ => ?_
      have known' := grows.classOf? stored.identified known
      have creates := ends_create_blank stored' frames'
        (Option.bind_eq_some_iff.mpr ⟨id, owner, known'⟩) named length
      exact (creates.mono (fun _ _ made => made) fun _ _ _ _ => trivial).bind fun _ _ made =>
        ends_pure made
    exact ended.of_ok ran

/-! ## A string made by `new` -/

/-- Whether a call of the method of a name is one of a class that is ready, whose run ends in a
number of steps without a `new` of the class of strings. -/
def makesNoString (machine : Machine) (name : String) (arguments : List Value) (count : Nat) :
    Bool :=
  match (machine.classes.flatMap (·.methods)).find? (·.name == name) with
  | none => true
  | some method =>
      match method.owner.bind (Call.begun machine).classOf? with
      | none => false
      | some c =>
          match Initialization.ensureReady c (Call.begun machine),
              Frame.withArguments method arguments with
          | .ok true ready, .ok callee =>
              match Exec.pushFrame { callee with isEntry := true } ready with
              | .ok () entered =>
                  (entered.stepped count).thread.depth ≤ ready.thread.depth ∧
                    ∀ k < count, (entered.stepped k).instantiated? ≠ some stringClass
              | .error _ _ => false
          | _, _ => false

theorem makesNoString_of_eq_true {name : String} {arguments : List Value} {count : Nat}
    (check : machine.makesNoString name arguments count = true) {method : Method}
    (found : (machine.classes.flatMap (·.methods)).find? (·.name == name) = some method) :
    machine.MakesNoString method arguments := by
  unfold makesNoString at check
  rw [found] at check
  dsimp only at check
  split at check
  · cases check
  rename_i c owned
  obtain ⟨id, owner, known⟩ := Option.bind_eq_some_iff.mp owned
  split at check
  case h_2 => cases check
  rename_i ready callee asked made
  split at check
  case h_2 => cases check
  rename_i entered pushed
  obtain ⟨back, plain⟩ := of_decide_eq_true check
  -- the class is ready at once, so the call executes the steps of the method alone
  rintro passed (⟨owner', known', steps⟩ |
    ⟨owner', known', initialized, made', pushed', runs, deep⟩)
  all_goals
    obtain rfl := Option.some.inj (owner.symm.trans owner')
    obtain rfl := Option.some.inj (known.symm.trans known')
  · cases steps with
    | runs asked' => cases asked.symm.trans asked'
    | again asked' => cases asked.symm.trans asked'
  · rename_i fuel tries callee' ready' entered'
    obtain rfl : ready = ready' := by
      cases tries with
      | zero => cases initialized
      | succ tries =>
          have ended : (Call.initializeFully fuel c (tries + 1)).Ends (Call.begun machine)
              (fun _ later => ready = later) fun _ _ => True :=
            ends_bind_thread (ends_bind_run asked (ends_pure rfl))
          exact ended.of_ok initialized
    obtain rfl : callee = callee' := Except.ok.inj (made.symm.trans made')
    obtain rfl : entered = entered' := by
      injection pushed.symm.trans pushed'
    obtain ⟨k, rfl, deeper⟩ := runs.exists_stepped
    refine plain k (Nat.lt_of_not_le fun late => ?_)
    rcases Nat.lt_or_eq_of_le late with later | rfl
    · exact absurd (deeper count later) (Nat.not_lt.mpr back)
    · exact absurd deep (Nat.not_lt.mpr back)

/-- The file of a class whose static method `make` has code `187 0 7 176`: it returns a new object of
the class of strings. -/
def makerFile : List UInt8 :=
  [202, 254, 186, 190, 0, 0, 0, 52, 0, 10, 1, 0, 5, 77, 97, 107, 101, 114, 7, 0, 1, 1, 0, 16,
    106, 97, 118, 97, 47, 108, 97, 110, 103, 47, 79, 98, 106, 101, 99, 116, 7, 0, 3, 1, 0, 4, 67,
    111, 100, 101, 1, 0, 16, 106, 97, 118, 97, 47, 108, 97, 110, 103, 47, 83, 116, 114, 105, 110,
    103, 7, 0, 6, 1, 0, 4, 109, 97, 107, 101, 1, 0, 20, 40, 41, 76, 106, 97, 118, 97, 47, 108, 97,
    110, 103, 47, 83, 116, 114, 105, 110, 103, 59, 0, 33, 0, 2, 0, 4, 0, 0, 0, 0, 0, 1, 0, 9, 0,
    8, 0, 9, 0, 1, 0, 5, 0, 0, 0, 16, 0, 1, 0, 0, 0, 0, 0, 4, 187, 0, 7, 176, 0, 0, 0, 0, 0, 0]

/-- The built-in classes, and the class of the file. -/
def maker : Machine := (sized 8388608).withFile "Maker" makerFile

/-- The method `make` is called, and its `new` is next. -/
def makerNew : Machine := (maker.during? "make" 16 [] 0).getD maker

/-- The method `add` has been called, and a text has been interned. -/
def addedAndInterned : Machine :=
  (intern "sum").after (adding.calling "add" 16 [.int 1, .int 2])

theorem strings_have_texts_unless_made_by_new_maker :
    ((∃ thread ∈ addedAndInterned.threads, ∃ object ∈ thread.heap.objects,
        addedAndInterned.IsString object ∧ addedAndInterned.HasText object) ∧
      addedAndInterned.text? ⟨0, 0⟩ = some "sum" ∧ addedAndInterned.text? ⟨0, 1⟩ = none ∧
      ∀ object, addedAndInterned.object? ⟨0, 1⟩ = some object → ¬ addedAndInterned.IsString object) ∧
    makerNew.instantiated? = some stringClass ∧
      ∃ answer later ref, step makerNew = .ok answer later ∧ later.Blank ref := by
  have conducted : Conducted MakesNoString addedAndInterned := by
    have plain : adding.makesNoString "add" [.int 1, .int 2] 4 = true := by decide +kernel
    have added := ((Conducted.start (start_eq_ok rfl)).withFile "Adder" adderFile).calling 16
      fun _ found => makesNoString_of_eq_true plain found
    exact .next added (.intern "sum")
  have reached : Reached (fun _ => True) makerNew :=
    ((Session.start (start_eq_ok rfl)).withFile trivial "Maker" makerFile).during trivial _ _ _ _
  obtain ⟨string, text, textless⟩ :
      (∃ object ∈ addedAndInterned.thread.heap.objects,
        ∃ c, addedAndInterned.findClass? stringClass = some c ∧ object.classId = c.id) ∧
      addedAndInterned.text? ⟨0, 0⟩ = some "sum" ∧ addedAndInterned.text? ⟨0, 1⟩ = none := by
    decide +kernel
  obtain ⟨makes, on⟩ : makerNew.instantiated? = some stringClass ∧ makerNew.stepsOn = true := by
    decide +kernel
  obtain ⟨object, held, is⟩ := string
  obtain ⟨texts, exactly, -⟩ := (strings_have_texts_unless_made_by_new addedAndInterned).1
    (.between conducted)
  have ran := step_of_stepsOn on
  obtain ⟨ref, blank⟩ := (strings_have_texts_unless_made_by_new makerNew).2 reached makes _ _ ran
  exact ⟨⟨⟨_, List.mem_cons_self, object, held, is, texts _ List.mem_cons_self object held is⟩, text,
    textless, (exactly _).mp textless⟩, makes, none, _, ref, ran, blank⟩

end Machine

end Jvm
