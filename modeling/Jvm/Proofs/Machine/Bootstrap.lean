/-
# Jvm.Proofs.Machine.Bootstrap — the dictionary at the start

The built-in classes enter an empty dictionary without a look at the options, the files or the
heap, since each finds its superclass among those before it. So every machine starts with the same
dictionary (`classes_withBuiltins`), and as names are not taken twice, the built-in classes are
found under their names from then on (`Machine.HasBuiltins`).
-/
import Jvm.Machine.Start
import Jvm.Proofs.Machine.Lookup

namespace Jvm

set_option autoImplicit false

open Exec

namespace Loading

/-- The superclass of a new class, if it is in the dictionary. -/
def superAmong? (classes : List LinkedClass) (name : String) :
    Option String → Option (Option LinkedClass)
  | none => some none
  | some above =>
      match classes.find? (·.name == above) with
      | none => none
      | some super => if above = name ∨ super.isInterface then none else some (some super)

/-- The dictionary after a class made of parts has entered it, if the class has a new name, is well
formed, and has its superclass there. -/
def enterParts? (classes : List LinkedClass) (parts : ClassParts) : Option (List LinkedClass) :=
  if (classes.find? (·.name == parts.name)).isSome then none
  else
    match superAmong? classes parts.name parts.superName with
    | none => none
    | some super =>
        match parts.checkMethods, parts.checkFields, parts.toClass with
        | .ok _, .ok _, .ok c =>
            match LinkedClass.link c ⟨c.name, classes.countP (·.name == c.name)⟩ super with
            | .ok linked => some (linked :: classes)
            | .error _ => none
        | _, _, _ => none

variable {machine : Machine} {Stopped : Halt → Machine → Prop}

/-- A class of the dictionary is found without any loading. -/
theorem ends_resolve_known {name : String} {c : LinkedClass}
    (known : machine.findClass? name = some c) :
    (resolve name).Ends machine (fun found later => found = c ∧ later = machine) Stopped := by
  refine ends_bind_get ?_
  unfold resolveWithin
  refine ends_bind_get ?_
  rw [known]
  exact ends_pure ⟨rfl, rfl⟩

theorem ends_superOfNew_among {name : String} {superName : Option String}
    {super : Option LinkedClass} (absent : machine.findClass? name = none)
    (among : superAmong? machine.classes name superName = some super) :
    (superOfNew name superName).Ends machine (fun found later => found = super ∧ later = machine)
      Stopped := by
  unfold superOfNew
  refine ends_bind_get ?_
  refine ends_guard (fun taken => by rw [absent] at taken; cases taken) fun _ => ?_
  unfold superAmong? at among
  split at among
  · obtain rfl := Option.some.inj among
    exact ends_pure ⟨rfl, rfl⟩
  · split at among
    · cases among
    · rename_i above _ found known
      split at among
      · cases among
      · rename_i fits
        obtain rfl := Option.some.inj among
        rw [not_or] at fits
        show (superOf resolve name (some above)).Ends machine _ _
        unfold superOf
        dsimp only
        refine ends_guard (fun own => absurd own fits.1) fun _ => ?_
        refine (ends_resolve_known known).bind fun _ _ ended => ?_
        obtain ⟨rfl, rfl⟩ := ended
        exact ends_guard (fun interface => absurd interface fits.2) fun _ => ends_pure ⟨rfl, rfl⟩

/-- Whatever else the machine has, the class enters its dictionary. -/
theorem ends_defineParts_entered {parts : ClassParts} {classes : List LinkedClass}
    (enters : enterParts? machine.classes parts = some classes) :
    (defineParts parts).Ends machine (fun _ later => later.classes = classes)
      fun _ _ => False := by
  unfold enterParts? at enters
  split at enters
  · cases enters
  · rename_i fresh
    split at enters
    · cases enters
    · rename_i super among
      split at enters
      · rename_i methods fields made
        split at enters
        · rename_i c linked link
          obtain rfl := Option.some.inj enters
          refine ends_bind_ofHalt (fun _ _ => ?_) fun _ failed => by rw [methods] at failed; cases failed
          refine (ends_superOfNew_among (Option.not_isSome_iff_eq_none.mp fresh) among).bind
            fun _ _ ended => ?_
          obtain ⟨rfl, rfl⟩ := ended
          refine ends_bind_ofHalt (fun _ _ => ?_) fun _ failed => by rw [fields] at failed; cases failed
          refine ends_bind_ofHalt (fun d made' => ?_) fun _ failed => by rw [made] at failed; cases failed
          obtain rfl : _ = d := Except.ok.inj (made.symm.trans made')
          refine ends_bind_get ?_
          dsimp only
          refine ends_bind_ofCause (fun linked' link' => ?_)
            fun _ failed => by rw [Machine.generationOf, link] at failed; cases failed
          obtain rfl : linked = linked' := Except.ok.inj (link.symm.trans link')
          refine ends_bind_modify ?_
          refine ends_bind_modify (ends_pure ?_)
          dsimp only
          split <;> rfl
        · cases enters
      · cases enters

end Loading

namespace Machine

open Loading

/-- The dictionary of a machine at its start. -/
def builtinClasses : List LinkedClass :=
  (Builtin.all.foldlM (fun classes spec => enterParts? classes spec.parts) []).getD []

theorem ends_defineAll_entered {machine : Machine} {specs : List Builtin.Spec}
    {classes : List LinkedClass}
    (enters : specs.foldlM (fun classes spec => enterParts? classes spec.parts) machine.classes =
      some classes) :
    (defineAll specs).Ends machine (fun _ later => later.classes = classes) fun _ _ => False := by
  induction specs generalizing machine with
  | nil => exact ends_pure (Option.some.inj enters)
  | cons spec rest ih =>
      rw [List.foldlM_cons] at enters
      obtain ⟨entered, first, enters'⟩ := Option.bind_eq_some_iff.mp enters
      refine (ends_defineParts_entered first).before (fun _ later same => ih ?_)
        fun _ _ impossible => impossible
      rw [same]
      exact enters'

theorem enters_builtinClasses :
    Builtin.all.foldlM (fun classes spec => enterParts? classes spec.parts) [] =
      some builtinClasses := by
  have entered : (Builtin.all.foldlM (fun classes spec => enterParts? classes spec.parts)
      []).isSome = true := by decide +kernel
  unfold builtinClasses
  obtain ⟨classes, enters⟩ := Option.isSome_iff_exists.mp entered
  rw [enters, Option.getD_some]

/-- Every machine starts with the same dictionary. -/
theorem classes_withBuiltins {machine : Machine} (bare : machine.classes = []) :
    machine.withBuiltins.classes = builtinClasses := by
  have ends : (defineAll Builtin.all).Ends machine
      (fun _ later => later.classes = builtinClasses) fun _ _ => False :=
    ends_defineAll_entered (by rw [bare]; exact enters_builtinClasses)
  unfold withBuiltins
  split
  · exact ends.of_ok ‹_›
  · exact (ends.of_error ‹_›).elim

/-! ## The built-in classes stay -/

/-- The built-in classes are found under their names. -/
def HasBuiltins (machine : Machine) : Prop :=
  ∀ c ∈ builtinClasses, machine.findClass? c.name = some c

theorem hasBuiltins_withBuiltins {machine : Machine} (bare : machine.classes = []) :
    machine.withBuiltins.HasBuiltins := by
  unfold HasBuiltins findClass?
  rw [classes_withBuiltins bare]
  decide +kernel

/-- A name that is taken stays taken by the same class. -/
theorem Grows.found {before after : Machine} (grows : before.Grows after) {name : String}
    {c : LinkedClass} (found : before.findClass? name = some c) :
    after.findClass? name = some c := by
  obtain ⟨added, classes, fresh⟩ := grows.classes
  have absent : added.find? (·.name == name) = none := by
    refine List.find?_eq_none.mpr fun d new same => ?_
    obtain rfl : d.name = name := by simpa using same
    rw [(fresh d new).2] at found
    cases found
  unfold findClass? at found ⊢
  rw [classes, List.find?_append, absent, Option.none_or, found]

theorem Grows.hasBuiltins {before after : Machine} (grows : before.Grows after)
    (has : before.HasBuiltins) : after.HasBuiltins :=
  fun c listed => grows.found (has c listed)

/-- A built-in class is the only one of its name. -/
theorem HasBuiltins.mem {machine : Machine} (has : machine.HasBuiltins) {name : String}
    (builtIn : name ∈ builtinClasses.map (·.name)) {c : LinkedClass}
    (found : machine.findClass? name = some c) : c ∈ builtinClasses := by
  obtain ⟨d, listed, rfl⟩ := List.mem_map.mp builtIn
  obtain rfl : d = c := Option.some.inj ((has d listed).symm.trans found)
  exact listed

/-! ## The class of strings -/

/-- What the class of strings is like: it and the classes above it declare no fields, and its
objects have a slot for the text. -/
theorem exists_stringBuiltin : ∃ c ∈ builtinClasses, c.name = stringClass ∧
    c.firstHiddenSlot < c.slotTypes.length ∧
    ∀ id ∈ c.chain, ∃ d ∈ builtinClasses, d.id = id ∧ d.fields = [] := by
  decide +kernel

variable {machine later : Machine}

/-- The class of strings, in every machine. -/
theorem HasBuiltins.exists_string (builtins : machine.HasBuiltins) :
    ∃ c ∈ builtinClasses, machine.findClass? stringClass = some c ∧ c.name = stringClass ∧
      c.firstHiddenSlot < c.slotTypes.length ∧
      ∀ id ∈ c.chain, ∃ d ∈ machine.classes, d.id = id ∧ d.fields = [] := by
  obtain ⟨c, listed, name, hidden, chain⟩ := exists_stringBuiltin
  refine ⟨c, listed, name ▸ builtins c listed, name, hidden, fun id member => ?_⟩
  obtain ⟨d, listed', same, none⟩ := chain id member
  exact ⟨d, List.mem_of_find?_eq_some (builtins d listed'), same, none⟩

/-- The class of strings stays the same. -/
theorem HasBuiltins.string_eq (builtins : machine.HasBuiltins) (builtins' : later.HasBuiltins) :
    later.findClass? stringClass = machine.findClass? stringClass := by
  obtain ⟨c, listed, name, -⟩ := exists_stringBuiltin
  rw [← name, builtins' c listed, builtins c listed]

end Machine

end Jvm
