/-
# Jvm.Proofs.Machine.Interning — interned strings and their texts

Every thread has a table of the strings that it has interned. In each table a text is entered once,
and what it is entered with is a string of the thread that has that text (`Machine.Interned`). Since
the text of a string never changes, and nothing is taken out of a table, a machine `Remembers` what
was interned before: an action that makes one string at most, or assigns a field, leads to a machine
that remembers (`Exec.basics_remembers`, `Exec.parts_remembers`), and so does a step
(`Exec.keeps_step_remembers`).
-/
import Jvm.Proofs.Machine.Strings
import Jvm.Proofs.StringTable

namespace Jvm

set_option autoImplicit false

open Exec Machine

namespace Machine

/-- The tables of strings, each with the number of its thread. -/
def tables (machine : Machine) : List (Nat × StringTable) :=
  machine.threads.map fun thread => (thread.number, thread.strings)

/-- Each table is sound, and what is found in it for a text is a string of the thread with that
text. -/
structure Interned (machine : Machine) : Prop extends machine.Founded where
  sound : ∀ table ∈ machine.tables, table.2.Sound
  texts : ∀ table ∈ machine.tables, ∀ (text : String) (ref : Ref),
    table.2.find? text = some ref → ref.heap = table.1 ∧ machine.text? ref = some text

/-- What has been interned in the first machine is found in the second, which has its strings in
order as well. -/
structure Remembers (first machine : Machine) : Prop extends machine.Interned where
  found : ∀ table ∈ first.tables, ∃ later, (table.1, later) ∈ machine.tables ∧
    ∀ (text : String) (ref : Ref), table.2.find? text = some ref → later.find? text = some ref

/-- Every text of an object of the first machine is its text in the second. -/
def TextsLast (machine later : Machine) : Prop :=
  ∀ (ref : Ref) (text : String), machine.text? ref = some text → later.text? ref = some text

variable {first machine later : Machine}

theorem Remembers.refl (interned : machine.Interned) : machine.Remembers machine :=
  ⟨interned, fun table member => ⟨table.2, member, fun _ _ found => found⟩⟩

theorem Remembers.trans (one : first.Remembers machine) (two : machine.Remembers later) :
    first.Remembers later := by
  refine ⟨two.toInterned, fun table member => ?_⟩
  obtain ⟨table', member', found⟩ := one.found table member
  obtain ⟨table'', member'', found'⟩ := two.found _ member'
  exact ⟨table'', member'', fun text ref entered => found' text ref (found text ref entered)⟩

/-- What has been interned on the current thread is found there later. -/
theorem Remembers.interned? (remembers : machine.Remembers later)
    (number : later.thread.number = machine.thread.number) {text : String} {ref : Ref}
    (found : machine.thread.interned? text = some ref) :
    later.thread.interned? text = some ref := by
  have own : (machine.thread.number, machine.thread.strings) ∈ machine.tables := List.mem_cons_self
  obtain ⟨table, member, kept⟩ := remembers.found _ own
  obtain ⟨thread, listed, same⟩ := List.mem_map.mp member
  obtain ⟨number', rfl⟩ := Prod.mk.inj same
  obtain rfl := remembers.numbered.eq_of_number listed List.mem_cons_self
    (number'.trans number.symm)
  exact kept text ref found

/-- What the current thread has interned for a text is a string with that text. -/
theorem Interned.text? (interned : machine.Interned) {text : String} {ref : Ref}
    (found : machine.thread.interned? text = some ref) : machine.text? ref = some text :=
  (interned.texts _ List.mem_cons_self text ref found).2

/-! ## Texts -/

/-- The text of an object is read from its hidden slot. -/
theorem text?_eq_some_iff (builtins : machine.HasBuiltins) {ref : Ref} {text : String} :
    machine.text? ref = some text ↔ ∃ object c, machine.object? ref = some object ∧
      machine.findClass? stringClass = some c ∧ object.classId = c.id ∧
        object.fields[c.firstHiddenSlot]? = some (.text (some text)) := by
  obtain ⟨c, -, found, -⟩ := builtins.exists_string
  unfold text?
  rw [found]
  constructor
  · intro read
    cases held : machine.object? ref with
    | none => simp [held] at read
    | some object =>
        simp only [held] at read
        split at read
        · rename_i string
          split at read
          · rename_i slot
            exact ⟨object, c, rfl, rfl, string, read ▸ slot⟩
          · cases read
        · cases read
  · rintro ⟨object, d, held, found', string, slot⟩
    obtain rfl := Option.some.inj found'
    simp [held, string, slot]

/-- The text of an object lasts if the object does, or if it changes and is no string. -/
theorem textsLast_of_objects (builtins : machine.HasBuiltins) (builtins' : later.HasBuiltins)
    (objects : ∀ (ref : Ref) (object : Object), machine.object? ref = some object →
      machine.IsString object → later.object? ref = some object) : machine.TextsLast later := by
  intro ref text read
  obtain ⟨object, c, held, found, string, slot⟩ := (text?_eq_some_iff builtins).mp read
  refine (text?_eq_some_iff builtins').mpr ⟨object, c, ?_, ?_, string, slot⟩
  · exact objects ref object held ⟨c, found, string⟩
  · rw [builtins.string_eq builtins', found]

/-! ## Changes that leave the tables alone -/

/-- Tables have been kept, and new ones are empty. -/
theorem Interned.stays (interned : machine.Interned) (founded : later.Founded)
    (texts : machine.TextsLast later)
    (old : ∀ table ∈ later.tables, table ∈ machine.tables ∨ table.2 = .empty)
    (kept : machine.tables ⊆ later.tables) : machine.Remembers later := by
  refine ⟨⟨founded, fun table member => ?_, fun table member text ref found => ?_⟩,
    fun table member => ⟨table.2, kept member, fun _ _ found => found⟩⟩
  · rcases old table member with old | empty
    · exact interned.sound table old
    · exact empty ▸ StringTable.sound_empty
  · rcases old table member with old | empty
    · obtain ⟨own, read⟩ := interned.texts table old text ref found
      exact ⟨own, texts ref text read⟩
    · rw [empty, StringTable.find?_empty] at found
      cases found

theorem Interned.same (interned : machine.Interned) (founded : later.Founded)
    (texts : machine.TextsLast later) (tables : later.tables = machine.tables) :
    machine.Remembers later :=
  interned.stays founded texts (fun _ member => .inl (tables ▸ member))
    (tables ▸ List.Subset.refl _)

/-- Classes have been added, and the objects and the tables are the same. -/
theorem Interned.grows (interned : machine.Interned) (grows : machine.Grows later)
    (formed : later.Formed) (objects : ∀ ref, later.object? ref = machine.object? ref)
    (tables : later.tables = machine.tables) : machine.Remembers later := by
  have founded := interned.toFounded.grows grows formed
  refine interned.same founded (textsLast_of_objects interned.builtins founded.builtins ?_) tables
  intro ref object held _
  rw [objects, held]

theorem Interned.logged (interned : machine.Interned) (log : List String) :
    machine.Remembers { machine with log := log } :=
  interned.grows ((Grows.refl machine).step rfl rfl rfl rfl rfl rfl)
    (interned.formed.of_classes rfl) (fun _ => rfl) rfl

/-- The current thread is another, but for its number, its objects and its strings. -/
theorem Interned.beside (interned : machine.Interned) (change : Thread → Thread)
    (number : (change machine.thread).number = machine.thread.number)
    (heap : (change machine.thread).heap = machine.thread.heap)
    (strings : (change machine.thread).strings = machine.thread.strings) :
    machine.Remembers (machine.updateThread change) := by
  obtain ⟨founded, objects⟩ := interned.toFounded.beside change number heap
  refine interned.same founded (textsLast_of_objects interned.builtins founded.builtins ?_) ?_
  · intro ref object held _
    rw [objects, held]
  · show ((change machine.thread).number, (change machine.thread).strings) :: _ = _
    rw [number, strings]
    rfl

theorem tables_updateHeap (machine : Machine) (number : Nat) (change : Heap → Heap) :
    (machine.updateHeap number change).tables = machine.tables := by
  unfold tables threads updateHeap
  split
  · rfl
  · simp only [List.map_cons, List.map_map]
    congr 1
    refine List.map_congr_left fun thread _ => ?_
    dsimp only [Function.comp]
    split <;> rfl

/-- A slot of an object is written that is no string. -/
theorem Interned.write (interned : machine.Interned) {ref : Ref} {slot : Nat} {v : Value}
    (other : ∀ object, machine.object? ref = some object → ¬ machine.IsString object) :
    machine.Remembers (machine.updateHeap ref.heap fun heap => heap.putField ref.index slot v) := by
  have classes := classes_updateHeap machine ref.heap fun heap => heap.putField ref.index slot v
  have founded := interned.toFounded.grows (steady_updateHeap machine ref.heap fun heap =>
    heap.putField ref.index slot v).toGrows (interned.formed.of_classes classes)
  refine interned.same founded (textsLast_of_objects interned.builtins founded.builtins ?_)
    (tables_updateHeap machine ref.heap _)
  intro target object held string
  have apart : target ≠ ref := by
    rintro rfl
    exact other object held string
  rw [object?_putField, held, Option.map_some, if_neg apart]

/-- The next reference of a thread is of no object yet. -/
theorem Numbered.ne_nextRef (numbered : machine.Numbered) {ref : Ref} {object : Object}
    (held : machine.object? ref = some object) : ref ≠ machine.thread.nextRef := by
  rintro rfl
  obtain ⟨thread, member, same, there⟩ := numbered.object?_eq_some.mp held
  obtain rfl := numbered.eq_of_number member List.mem_cons_self same
  exact absurd (Array.getElem?_eq_some_iff.mp there).1 (Nat.lt_irrefl _)

/-- An object has been added to the current thread. -/
theorem Interned.addObject (interned : machine.Interned) (c : LinkedClass) :
    machine.Remembers (machine.updateThread fun thread => thread.addObject c) := by
  have founded := interned.toFounded.addObject c
  refine interned.same founded (textsLast_of_objects interned.builtins founded.builtins ?_) rfl
  intro ref object held _
  rw [object?_addObject, if_neg (interned.numbered.ne_nextRef held), held]

/-! ## A new string -/

theorem tables_withString (machine : Machine) (c : LinkedClass) (text : String) :
    (machine.withString c text).tables =
      (machine.thread.number, machine.thread.strings.insert text machine.thread.nextRef) ::
        machine.parked.map fun thread => (thread.number, thread.strings) := rfl

/-- The text is found from then on. -/
theorem interned?_of_entered {text : String} {ref : Ref}
    (entered : later.thread.strings = machine.thread.strings.insert text ref) :
    later.thread.interned? text = some ref := by
  unfold Thread.interned?
  rw [entered, StringTable.find?_insert, if_pos rfl]

section WithString

variable (interned : machine.Interned) (c : LinkedClass) (text : String)

include interned

theorem Interned.textsLast_withString : machine.TextsLast (machine.withString c text) := by
  refine textsLast_of_objects interned.builtins (interned.toFounded.withString c text).builtins ?_
  intro ref object held _
  rw [object?_withString, if_neg (interned.numbered.ne_nextRef held), held]

variable {c}

/-- The new string has the text. -/
theorem Interned.text?_withString (found : machine.findClass? stringClass = some c) :
    (machine.withString c text).text? machine.thread.nextRef = some text := by
  have builtins := (interned.toFounded.withString c text).builtins
  obtain ⟨d, -, found', -, hidden, -⟩ := interned.builtins.exists_string
  obtain rfl := Option.some.inj (found.symm.trans found')
  refine (text?_eq_some_iff builtins).mpr
    ⟨(Object.ofClass c).write c.firstHiddenSlot (.text (some text)), c, ?_,
      (interned.builtins.string_eq builtins).trans found, rfl, ?_⟩
  · rw [object?_withString, if_pos rfl]
  · exact Array.getElem?_setIfInBounds_self_of_lt (by simpa [Object.ofClass] using hidden)

variable {text}

/-- A text that was not interned is, and nothing else changes in the tables. -/
theorem Interned.withString (found : machine.findClass? stringClass = some c)
    (absent : machine.thread.interned? text = none) :
    machine.Remembers (machine.withString c text) := by
  have last := interned.textsLast_withString c text
  have own : (machine.thread.number, machine.thread.strings) ∈ machine.tables := List.mem_cons_self
  refine ⟨⟨interned.toFounded.withString c text, fun table member => ?_,
    fun table member other ref entered => ?_⟩, fun table member => ?_⟩
  · rw [tables_withString] at member
    rcases List.mem_cons.mp member with rfl | waits
    · exact (interned.sound _ own).insert absent _
    · exact interned.sound table (List.mem_cons_of_mem _ waits)
  · rw [tables_withString] at member
    rcases List.mem_cons.mp member with rfl | waits
    · rw [StringTable.find?_insert] at entered
      split at entered
      · rename_i same
        cases entered
        exact ⟨rfl, same ▸ interned.text?_withString text found⟩
      · obtain ⟨here, read⟩ := interned.texts _ own other ref entered
        exact ⟨here, last ref other read⟩
    · obtain ⟨here, read⟩ := interned.texts table (List.mem_cons_of_mem _ waits) other ref entered
      exact ⟨here, last ref other read⟩
  · rw [tables_withString]
    rcases List.mem_cons.mp member with rfl | waits
    · refine ⟨_, List.mem_cons_self, fun other ref entered => ?_⟩
      have differs : other ≠ text := by
        rintro rfl
        cases absent.symm.trans entered
      rw [StringTable.find?_insert, if_neg differs, entered]
    · exact ⟨table.2, List.mem_cons_of_mem _ waits, fun _ _ entered => entered⟩

end WithString

end Machine

namespace Exec

variable {first machine : Machine}

/-- What interning answers is in the table then, and whatever was interned is remembered. -/
theorem ends_intern_remembers (interned : machine.Interned) (text : String) :
    (intern text).Ends machine
      (fun ref later => machine.Remembers later ∧ (
        (machine.thread.interned? text = some ref ∧ later = machine) ∨
        (machine.thread.interned? text = none ∧
          later.thread.strings = machine.thread.strings.insert text ref)))
      fun halt later => later = machine ∧ machine.thread.interned? text = none ∧
        machine.LacksRoom halt := by
  refine (ends_intern interned.builtins text).mono (fun ref later ended => ?_)
    fun _ _ ended => ended
  rcases ended with ⟨known, rfl⟩ | ⟨absent, rfl, c, found, rfl⟩
  · exact ⟨.refl interned, .inl ⟨known, rfl⟩⟩
  · exact ⟨interned.withString found absent, .inr ⟨absent, rfl⟩⟩

/-! ## What everything else is made of -/

/-- What leads from every machine to one that remembers it keeps what is remembered. -/
theorem keeps_remembers {α : Type} {action : Exec α}
    (leads : ∀ machine : Machine, machine.Interned →
      action.Ends machine (fun _ => machine.Remembers) fun _ => machine.Remembers) :
    Keeps first.Remembers action := fun machine remembers =>
  (leads machine remembers.toInterned).mono (fun _ _ => remembers.trans) fun _ _ => remembers.trans

theorem keeps_intern_remembers (text : String) : Keeps first.Remembers (intern text) :=
  keeps_remembers fun _ interned => (ends_intern_remembers interned text).mono
    (fun _ _ ended => ended.1) fun _ _ ended => ended.1.symm ▸ .refl interned

theorem keeps_allocate_remembers (c : LinkedClass) : Keeps first.Remembers (allocate c) :=
  fun _ remembers => ends_allocate_of remembers
    (remembers.trans (remembers.toInterned.addObject c))

/-- What adds classes and leaves the threads alone. -/
theorem keeps_loading_remembers {α : Type} {action : Exec α}
    (grows : ∀ machine : Machine, Keeps machine.Steady action) (formed : Keeps Formed action)
    (threads : ∀ threads, Keeps (·.threads = threads) action) : Keeps first.Remembers action := by
  refine keeps_remembers fun machine interned => ?_
  have ended := ((grows machine machine (Steady.refl machine)).and
    (formed machine interned.formed)).and (threads machine.threads machine rfl)
  have remembers : ∀ later : Machine, (machine.Steady later ∧ later.Formed) ∧
      later.threads = machine.threads → machine.Remembers later := by
    rintro later ⟨⟨steady, formed⟩, threads⟩
    obtain ⟨thread, parked⟩ := List.cons.inj threads
    exact interned.grows steady.toGrows formed
      (object?_eq_of_heap (congrArg _ thread) (congrArg _ thread) parked)
      (congrArg (List.map _) threads)
  exact ended.mono (fun _ => remembers) fun _ => remembers

theorem basics_remembers (first : Machine) : Basics first.Remembers where
  threads remembers change number heap strings :=
    remembers.trans (remembers.toInterned.beside change number heap strings)
  traces wanted line := by
    refine keeps_modify fun machine remembers => ?_
    split
    · exact remembers.trans (remembers.toInterned.logged _)
    · exact remembers
  resolve name := keeps_loading_remembers (fun _ => Loading.keeps_resolve name)
    (Loading.keeps_resolve_formed name) fun _ => Loading.keeps_resolve_threads name
  interns := keeps_intern_remembers
  streams remembers _ := keeps_allocate_remembers _ _ remembers

theorem parts_remembers (first : Machine) (length : Nat) :
    Parts length first.Remembers first.Remembers where
  toHandles := (basics_remembers first).handles fun _ _ declared _ remembers =>
    ends_setField_other (basics_remembers first) (fun remembers => remembers.toFounded)
      (fun remembers other => remembers.trans (remembers.toInterned.write other)) remembers declared
      length
  allocate c machine _ remembers := keeps_allocate_remembers c machine remembers

theorem keeps_step_remembers : Keeps first.Remembers step :=
  keeps_step_of_parts (parts_remembers first) (basics_remembers first).traces
    fun _ _ _ _ _ remembers _ _ => remembers

end Exec

end Jvm
