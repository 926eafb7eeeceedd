/-
# Jvm.Proofs.Machine.Growth — what no action takes back

Whatever a machine does on its thread, its options and files stay, the other threads are left
alone but for their objects, and the dictionary only gets classes in front, each from a file or
built in and of a name that was not there before: `before.Grows after`. Most actions leave the
call stack alone as well: they look things up, load and link classes, allocate objects, intern
strings, print (`before.Aside after`). Of these most change no record of a class either
(`before.Steady after`).

Each action has one lemma here, `keeps_…`, for the strongest of the three that it satisfies.
-/
import Mathlib.Data.List.Pairwise
import Jvm.Machine.Initialization
import Jvm.Proofs.Action
import Jvm.Proofs.Class.Sourced

namespace Jvm

set_option autoImplicit false

/-- A thread but for its objects. -/
def Thread.heapless (thread : Thread) : Thread := { thread with heap := .empty 0 }

namespace Machine

/-- The id of a class is its name with a number below that of the next class of the name, and no
two classes share one. The superclasses of a class are those of a class of the dictionary, with
that class in front, and the class itself is not among them. -/
structure Identified (machine : Machine) : Prop where
  apart : machine.classes.Pairwise fun c d => c.id ≠ d.id
  named : ∀ c ∈ machine.classes, c.id.name = c.name ∧ c.id.generation < machine.generationOf c.name
  layered : ∀ c ∈ machine.classes, c.chain.Nodup ∧
    (c.supers = [] ∨ ∃ super ∈ machine.classes, c.supers = super.chain)

/-- What every action leaves as it was. Of the other threads, only the heaps can change. -/
structure Grows (before after : Machine) : Prop where
  options : after.options = before.options
  files : after.files = before.files
  state : after.thread.state = before.thread.state
  number : after.thread.number = before.thread.number
  parked : after.parked.map Thread.heapless = before.parked.map Thread.heapless
  classes : ∃ added, after.classes = added ++ before.classes ∧
    ∀ c ∈ added, c.Sourced ∧ before.findClass? c.name = none
  identified : before.Identified → after.Identified

/-- The same, and the call stack is as it was. -/
structure Aside (before after : Machine) : Prop extends before.Grows after where
  calls : after.thread.calls = before.thread.calls

/-- The same, and the records of classes are as they were. -/
structure Steady (before after : Machine) : Prop extends before.Aside after where
  records : after.thread.records = before.thread.records

theorem Grows.refl (machine : Machine) : machine.Grows machine :=
  ⟨rfl, rfl, rfl, rfl, rfl, ⟨[], rfl, by simp⟩, fun identified => identified⟩

theorem Aside.refl (machine : Machine) : machine.Aside machine := ⟨Grows.refl machine, rfl⟩

theorem Steady.refl (machine : Machine) : machine.Steady machine := ⟨Aside.refl machine, rfl⟩

theorem Aside.frames {before after : Machine} (aside : before.Aside after) :
    after.thread.frames = before.thread.frames :=
  congrArg CallStack.frames aside.calls

theorem findClass?_append {before after : Machine} {added : List LinkedClass}
    (classes : after.classes = added ++ before.classes) {name : String}
    (absent : after.findClass? name = none) : before.findClass? name = none := by
  unfold findClass? at absent ⊢
  rw [classes, List.find?_append, Option.or_eq_none_iff] at absent
  exact absent.2

/-- A name that is not in the dictionary was not in it before. -/
theorem Grows.absent {before after : Machine} (grows : before.Grows after) {name : String}
    (absent : after.findClass? name = none) : before.findClass? name = none := by
  obtain ⟨added, classes, -⟩ := grows.classes
  exact findClass?_append classes absent

theorem Grows.trans {first second third : Machine} (one : first.Grows second)
    (two : second.Grows third) : first.Grows third := by
  obtain ⟨added, classes, fresh⟩ := one.classes
  obtain ⟨added', classes', fresh'⟩ := two.classes
  refine ⟨two.options.trans one.options, two.files.trans one.files, two.state.trans one.state,
    two.number.trans one.number, two.parked.trans one.parked,
    ⟨added' ++ added, by rw [classes', classes, List.append_assoc], fun c member => ?_⟩,
    fun identified => two.identified (one.identified identified)⟩
  rcases List.mem_append.mp member with later | earlier
  · exact ⟨(fresh' c later).1, one.absent (fresh' c later).2⟩
  · exact fresh c earlier

theorem Aside.trans {first second third : Machine} (one : first.Aside second)
    (two : second.Aside third) : first.Aside third :=
  ⟨one.toGrows.trans two.toGrows, two.calls.trans one.calls⟩

theorem Steady.trans {first second third : Machine} (one : first.Steady second)
    (two : second.Steady third) : first.Steady third :=
  ⟨one.toAside.trans two.toAside, two.records.trans one.records⟩

theorem Grows.mem {before after : Machine} (grows : before.Grows after) {c : LinkedClass}
    (known : c ∈ before.classes) : c ∈ after.classes := by
  obtain ⟨added, classes, -⟩ := grows.classes
  rw [classes]
  exact List.mem_append_right _ known

/-- Every class comes from a file or is built in. -/
def Sourced (machine : Machine) : Prop := ∀ c ∈ machine.classes, c.Sourced

theorem Grows.sourced {before after : Machine} (grows : before.Grows after)
    (sourced : before.Sourced) : after.Sourced := by
  obtain ⟨added, classes, fresh⟩ := grows.classes
  intro c known
  rw [classes] at known
  rcases List.mem_append.mp known with new | old
  · exact (fresh c new).1
  · exact sourced c old

theorem mem_of_classOf? {machine : Machine} {id : ClassId} {c : LinkedClass}
    (found : machine.classOf? id = some c) : c ∈ machine.classes ∧ c.id = id :=
  ⟨List.mem_of_find?_eq_some found, by simpa using List.find?_some found⟩

theorem Identified.eq_of_id {machine : Machine} (identified : machine.Identified) {c d : LinkedClass}
    (one : c ∈ machine.classes) (other : d ∈ machine.classes) (same : c.id = d.id) : c = d := by
  have symmetric : Std.Symm fun c d : LinkedClass => c.id ≠ d.id := ⟨fun _ _ apart => apart.symm⟩
  by_contra distinct
  exact identified.apart.forall one other distinct same

theorem Identified.classOf? {machine : Machine} (identified : machine.Identified) {c : LinkedClass}
    (known : c ∈ machine.classes) : machine.classOf? c.id = some c := by
  unfold Machine.classOf?
  cases found : machine.classes.find? (·.id == c.id) with
  | none =>
      have missed := List.find?_eq_none.mp found c known
      simp at missed
  | some d =>
      have same : d.id = c.id := by simpa using List.find?_some found
      rw [identified.eq_of_id (List.mem_of_find?_eq_some found) known same]

/-- A class that is known by its id is known by it from then on. -/
theorem Grows.classOf? {before after : Machine} (grows : before.Grows after)
    (identified : before.Identified) {id : ClassId} {c : LinkedClass}
    (found : before.classOf? id = some c) : after.classOf? id = some c := by
  obtain ⟨known, rfl⟩ := mem_of_classOf? found
  exact (grows.identified identified).classOf? (grows.mem known)

/-- A thread that waits now has waited before, with other objects at most. -/
theorem exists_parked {before after : Machine}
    (parked : after.parked.map Thread.heapless = before.parked.map Thread.heapless)
    {thread : Thread} (waits : thread ∈ after.parked) :
    ∃ old ∈ before.parked, old.heapless = thread.heapless :=
  List.mem_map.mp (parked ▸ List.mem_map_of_mem waits)

/-- The other threads execute what they executed. -/
theorem Grows.frames_parked {before after : Machine} (grows : before.Grows after) {thread : Thread}
    (waits : thread ∈ after.parked) : ∃ old ∈ before.parked, old.frames = thread.frames := by
  obtain ⟨old, waited, same⟩ := exists_parked grows.parked waits
  exact ⟨old, waited, (congrArg Thread.frames same :)⟩

/-- The other threads have the records that they had. -/
theorem Grows.records_parked {before after : Machine} (grows : before.Grows after) {thread : Thread}
    (waits : thread ∈ after.parked) : ∃ old ∈ before.parked, old.records = thread.records := by
  obtain ⟨old, waited, same⟩ := exists_parked grows.parked waits
  exact ⟨old, waited, (congrArg Thread.records same :)⟩

/-- A change of the machine that leaves all of this alone. -/
theorem Grows.step {before after later : Machine} (grows : before.Grows after)
    (options : later.options = after.options) (files : later.files = after.files)
    (state : later.thread.state = after.thread.state)
    (number : later.thread.number = after.thread.number)
    (parked : later.parked.map Thread.heapless = after.parked.map Thread.heapless)
    (classes : later.classes = after.classes) : before.Grows later := by
  refine grows.trans ⟨options, files, state, number, parked, ⟨[], classes, by simp⟩,
    fun identified => ⟨?_, ?_, ?_⟩⟩
  · rw [classes]
    exact identified.apart
  · unfold generationOf
    rw [classes]
    exact identified.named
  · rw [classes]
    exact identified.layered

theorem Steady.step {before after later : Machine} (steady : before.Steady after)
    (options : later.options = after.options) (files : later.files = after.files)
    (state : later.thread.state = after.thread.state)
    (number : later.thread.number = after.thread.number)
    (parked : later.parked.map Thread.heapless = after.parked.map Thread.heapless)
    (classes : later.classes = after.classes)
    (calls : later.thread.calls = after.thread.calls)
    (records : later.thread.records = after.thread.records) : before.Steady later :=
  ⟨⟨steady.toGrows.step options files state number parked classes, calls.trans steady.calls⟩,
    records.trans steady.records⟩

/-- Whatever is in the chain of a class of the dictionary is in the dictionary itself. -/
theorem Identified.known_of_mem_chain {machine : Machine} (identified : machine.Identified)
    {c : LinkedClass} (known : c ∈ machine.classes) {id : ClassId} (member : id ∈ c.chain) :
    ∃ d ∈ machine.classes, d.id = id := by
  induction length : c.supers.length generalizing c with
  | zero =>
      have top : c.supers = [] := List.length_eq_zero_iff.mp length
      have own : id = c.id := by simpa [LinkedClass.chain, top] using member
      exact ⟨c, known, own.symm⟩
  | succ n ih =>
      rcases List.mem_cons.mp member with own | above
      · exact ⟨c, known, own.symm⟩
      · rcases (identified.layered c known).2 with top | ⟨super, known', chain⟩
        · rw [top] at above
          cases above
        · refine ih known' (chain ▸ above) ?_
          have shorter := congrArg List.length chain
          simp [LinkedClass.chain, length] at shorter
          omega

/-- A class of a new name and number in front of the dictionary. -/
theorem Identified.cons {machine : Machine} (identified : machine.Identified) {c : LinkedClass}
    (id : c.id = ⟨c.name, machine.generationOf c.name⟩)
    (above : c.supers = [] ∨ ∃ super ∈ machine.classes, c.supers = super.chain) :
    { machine with classes := c :: machine.classes }.Identified := by
  have count : ∀ name, machine.generationOf name ≤ (c :: machine.classes).countP (·.name == name) :=
    fun name => by
      rw [List.countP_cons]
      exact Nat.le_add_right _ _
  have fresh : ∀ d ∈ machine.classes, c.id ≠ d.id := by
    intro d known same
    obtain ⟨named, below⟩ := identified.named d known
    rw [← same, id] at named below
    rw [← named] at below
    exact absurd below (Nat.lt_irrefl _)
  refine ⟨List.pairwise_cons.mpr ⟨fresh, identified.apart⟩, ?_, ?_⟩
  · rintro d (_ | ⟨_, known⟩)
    · refine ⟨by rw [id], ?_⟩
      unfold generationOf at id ⊢
      rw [id]
      simp
    · exact ⟨(identified.named d known).1,
        Nat.lt_of_lt_of_le (identified.named d known).2 (count d.name)⟩
  · rintro d (_ | ⟨_, known⟩)
    · rcases above with top | ⟨super, known, chain⟩
      · exact ⟨by simp [LinkedClass.chain, top], .inl top⟩
      · refine ⟨List.nodup_cons.mpr ⟨fun member => ?_, ?_⟩,
          .inr ⟨super, List.mem_cons_of_mem c known, chain⟩⟩
        · obtain ⟨e, listed, same⟩ := identified.known_of_mem_chain known (chain ▸ member)
          exact fresh e listed same.symm
        · rw [chain]
          exact (identified.layered super known).1
    · obtain ⟨distinct, placed⟩ := identified.layered d known
      refine ⟨distinct, placed.imp_right ?_⟩
      rintro ⟨super, known', chain⟩
      exact ⟨super, List.mem_cons_of_mem c known', chain⟩

/-- A class enters the dictionary in front. -/
theorem Steady.enter {before after : Machine} (steady : before.Steady after) {c : LinkedClass}
    (sourced : c.Sourced) (absent : before.findClass? c.name = none)
    (id : c.id = ⟨c.name, after.generationOf c.name⟩)
    (above : c.supers = [] ∨ ∃ super ∈ after.classes, c.supers = super.chain) :
    before.Steady { after with classes := c :: after.classes } := by
  obtain ⟨added, classes, fresh⟩ := steady.classes
  refine ⟨⟨⟨steady.options, steady.files, steady.state, steady.number, steady.parked,
    ⟨c :: added, by simp only [classes, List.cons_append], ?_⟩,
    fun identified => (steady.identified identified).cons id above⟩, steady.calls⟩, steady.records⟩
  rintro d (_ | ⟨_, listed⟩)
  · exact ⟨sourced, absent⟩
  · exact fresh d listed

end Machine

namespace Exec

open Machine

variable {α : Type} {before : Machine}

theorem Keeps.aside {action : Exec α} (keeps : ∀ machine : Machine, Keeps machine.Steady action) :
    Keeps before.Aside action :=
  fun machine aside => (keeps machine machine (Steady.refl machine)).mono
    (fun _ _ steady => aside.trans steady.toAside) fun _ _ steady => aside.trans steady.toAside

/-! ## Objects, strings, texts -/

theorem keeps_trace (wanted : Options → Bool) (line : String) :
    Keeps before.Steady (trace wanted line) := by
  refine keeps_modify fun machine steady => ?_
  split
  · exact steady.step rfl rfl rfl rfl rfl rfl rfl rfl
  · exact steady

theorem keeps_print (text : String) : Keeps before.Steady (print text) :=
  keeps_modify fun _ steady => steady.step rfl rfl rfl rfl rfl rfl rfl rfl

theorem keeps_builtin {P : Machine → Prop} (name : String) : Keeps P (builtin name) :=
  keeps_bind keeps_get fun _ => by
    split
    · exact keeps_pure _
    · exact keeps_violate _

/-- An object is added to the current thread, if there is room for it. -/
theorem ends_allocate (c : LinkedClass) (machine : Machine) :
    (allocate c).Ends machine
      (fun ref later => ref = machine.thread.nextRef ∧
        later = machine.updateThread fun thread => thread.addObject c)
      fun halt later => later = machine ∧ machine.thread.heap.hasRoom c = false ∧
        halt = (machine.thread.heap.exhausted c).halt := by
  unfold Ends allocate
  cases machine.thread.heap.hasRoom c with
  | true => exact ⟨rfl, rfl⟩
  | false => exact ⟨rfl, rfl, rfl⟩

theorem ends_allocate_of {P : Machine → Prop} {c : LinkedClass} {machine : Machine}
    (holds : P machine) (added : P (machine.updateThread fun thread => thread.addObject c)) :
    (allocate c).Ends machine (fun _ => P) fun _ => P :=
  (ends_allocate c machine).mono (fun _ _ made => made.2 ▸ added) fun _ _ same => same.1 ▸ holds

theorem keeps_allocate (c : LinkedClass) : Keeps before.Steady (allocate c) := fun _ steady =>
  ends_allocate_of steady (steady.step rfl rfl rfl rfl rfl rfl rfl rfl)

theorem keeps_field {P : Machine → Prop} (ref : Ref) (slot : Nat) : Keeps P (field ref slot) :=
  keeps_bind (keeps_object ref) fun _ => keeps_pure _

/-- Whichever thread an object belongs to, only its heap changes. -/
theorem steady_updateHeap (machine : Machine) (number : Nat) (change : Heap → Heap) :
    machine.Steady (machine.updateHeap number change) := by
  unfold updateHeap
  split
  · exact (Steady.refl machine).step rfl rfl rfl rfl rfl rfl rfl rfl
  · refine (Steady.refl machine).step rfl rfl rfl rfl ?_ rfl rfl rfl
    simp only [List.map_map]
    refine List.map_congr_left fun thread _ => ?_
    show Thread.heapless (if _ then _ else _) = _
    split <;> rfl

theorem keeps_putField (ref : Ref) (slot : Nat) (v : Value) :
    Keeps before.Steady (putField ref slot v) :=
  keeps_modify fun machine steady => steady.trans (steady_updateHeap machine _ _)

theorem keeps_intern (text : String) : Keeps before.Steady (intern text) := by
  refine keeps_bind keeps_thread fun thread => ?_
  split
  · exact keeps_pure _
  · refine keeps_bind (keeps_builtin _) fun c => keeps_bind (keeps_allocate c) fun ref => ?_
    refine keeps_bind (keeps_putField ref _ _) fun _ => ?_
    exact keeps_bind (keeps_modify fun _ steady => steady.step rfl rfl rfl rfl rfl rfl rfl rfl)
      fun _ => keeps_pure _

theorem keeps_loadedValue (constant : Pool.Loadable) :
    Keeps before.Steady (loadedValue constant) := by
  cases constant with
  | value v => exact keeps_pure _
  | string text => exact keeps_bind (keeps_intern text) fun _ => keeps_pure _

/-! ## Records and natives -/

/-- A change of the records alone. -/
theorem keeps_records (change : Thread → Thread)
    (only : ∀ thread, ∃ records, change thread = { thread with records := records }) :
    Keeps before.Aside (updateThread change) := by
  refine keeps_modify fun machine aside => aside.trans ?_
  obtain ⟨records, same⟩ := only machine.thread
  unfold Machine.updateThread
  rw [same]
  exact ⟨(Grows.refl machine).step rfl rfl rfl rfl rfl rfl, rfl⟩

theorem keeps_setState (id : ClassId) (state : InitState) :
    Keeps before.Aside (Initialization.setState id state) :=
  keeps_records _ fun _ => ⟨_, rfl⟩

theorem keeps_write (id : ClassId) (slot : Nat) (v : Value) :
    Keeps before.Aside (Statics.write id slot v) :=
  keeps_records _ fun _ => ⟨_, rfl⟩

theorem keeps_firstValue (c : LinkedClass) (field : Field) :
    Keeps before.Steady (Statics.firstValue c field) := by
  unfold Statics.firstValue
  dsimp only
  split
  · exact keeps_pure _
  · refine keeps_bind (keeps_ofFault _) fun constant => ?_
    exact keeps_bind (keeps_loadedValue constant) fun v => keeps_guard (keeps_pure _)

theorem keeps_fill (c : LinkedClass) (fields : List Field) :
    Keeps before.Aside (Statics.fill c fields) := by
  induction fields with
  | nil => exact keeps_pure _
  | cons field rest ih =>
      unfold Statics.fill
      dsimp only
      split
      · refine keeps_bind (Keeps.aside fun _ => keeps_firstValue c field) fun v => ?_
        exact keeps_bind (keeps_records _ fun _ => ⟨_, rfl⟩) fun _ => ih
      · exact ih

theorem keeps_prepare (c : LinkedClass) : Keeps before.Aside (Statics.prepare c) := by
  refine keeps_bind keeps_thread fun thread => ?_
  split
  · exact keeps_pure _
  · refine keeps_bind (keeps_records _ fun _ => ⟨_, rfl⟩) fun _ => ?_
    exact keeps_bind (keeps_fill c c.fields) fun _ => keeps_pure _

theorem keeps_read {P : Machine → Prop} (id : ClassId) (slot : Nat) :
    Keeps P (Statics.read id slot) :=
  keeps_bind keeps_thread fun _ => by split <;> first | exact keeps_pure _ | exact keeps_violate _

theorem keeps_referenceText {P : Machine → Prop} (object : Option Ref) :
    Keeps P (Native.referenceText object) := by
  cases object with
  | none => exact keeps_pure _
  | some ref =>
      refine keeps_bind keeps_get fun machine => ?_
      dsimp only
      split
      · exact keeps_pure _
      · exact keeps_bind (keeps_object ref) fun _ => keeps_guard (keeps_pure _)

theorem keeps_printedText {P : Machine → Prop} (kind : PrintKind) (v : Value) :
    Keeps P (Native.printedText kind v) := by
  unfold Native.printedText
  split <;> first | exact keeps_pure _ | exact keeps_referenceText _

theorem keeps_storeOutput : Keeps before.Aside Native.storeOutput := by
  refine keeps_bind (Keeps.aside fun _ => keeps_builtin _) fun system => ?_
  refine keeps_bind (Keeps.aside fun _ => keeps_builtin _) fun stream => ?_
  refine keeps_bind (Keeps.aside fun _ => keeps_allocate _) fun ref => ?_
  refine keeps_bind (keeps_prepare system) fun _ => ?_
  split
  · exact keeps_write _ _ _
  · exact keeps_violate _

theorem keeps_native (native : Native) (arguments : List Value) :
    Keeps before.Aside (native.run arguments) := by
  cases native with
  | newline =>
      exact keeps_bind (Keeps.aside fun _ => keeps_print _) fun _ => keeps_pure _
  | print kind endsLine =>
      refine keeps_bind (Keeps.aside fun _ => keeps_printedText _ _) fun text => ?_
      exact keeps_bind (Keeps.aside fun _ => keeps_print _) fun _ => keeps_pure _
  | openOutput => exact keeps_bind keeps_storeOutput fun _ => keeps_pure _
  | fail => exact keeps_fail _
  | _ => exact keeps_pure _

end Exec

end Jvm
