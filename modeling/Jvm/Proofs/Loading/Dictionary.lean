/-
# Jvm.Proofs.Loading.Dictionary — the dictionary after any requests

A request finds a class or defines one (`Request`). Whatever was requested, every class of the
dictionary is linked to the superclass that it declares, and that one is in the dictionary as well
(`LinkedClass.Seated`). The names of the classes are distinct as long as no definition is
`Overtaken`: a class file of the name that is being defined is read on the way to the superclass,
so that its class enters the dictionary between the check that the name is new and the entry of
the class that was to be defined. From then on there are two classes of the name.
-/
import Jvm.Proofs.Loading.Chain
import Jvm.Proofs.Machine.Session

namespace Jvm

set_option autoImplicit false

open Exec
open ClassFile.Reader (rootClass)

/-! ## Linked classes -/

namespace LinkedClass

theorem link_superName {declared : Class} {id : ClassId} {super : Option LinkedClass}
    {c : LinkedClass} (linked : LinkedClass.link declared id super = .ok c) :
    c.superName = declared.superName := by
  unfold LinkedClass.link at linked
  split at linked
  · cases linked
  · cases linked
    rfl

/-- The class is linked to the class of the dictionary that it declares as its superclass, or to none
if it declares none. -/
def Seated (classes : List LinkedClass) (c : LinkedClass) : Prop :=
  ∃ declared super, LinkedClass.link declared c.id super = .ok c ∧
    super.map (·.name) = c.superName ∧ ∀ d ∈ super, d ∈ classes

theorem Seated.mono {classes more : List LinkedClass} {c : LinkedClass} (seated : c.Seated classes)
    (within : classes ⊆ more) : c.Seated more := by
  obtain ⟨declared, super, links, named, known⟩ := seated
  exact ⟨declared, super, links, named, fun d above => within (known d above)⟩

theorem seated_of_link {declared : Class} {id : ClassId} {super : Option LinkedClass}
    {c : LinkedClass} {classes : List LinkedClass}
    (links : LinkedClass.link declared id super = .ok c)
    (named : super.map (·.name) = declared.superName) (known : ∀ d ∈ super, d ∈ classes) :
    c.Seated classes :=
  ⟨declared, super, by rw [link_id links, links], named.trans (link_superName links).symm, known⟩

/-- A class that declares a superclass knows it by its id. -/
theorem Seated.super {classes : List LinkedClass} {c : LinkedClass} (seated : c.Seated classes)
    (declares : c.superName ≠ none) :
    ∃ super ∈ classes, c.superName = some super.name ∧ c.superId? = some super.id := by
  obtain ⟨declared, super, links, named, known⟩ := seated
  cases super with
  | none => exact absurd named.symm declares
  | some super =>
      refine ⟨super, known super rfl, named.symm, ?_⟩
      rw [superId?, link_supers links]
      rfl

end LinkedClass

namespace Loading

open Machine

/-! ## What a trail adds -/

/-- Some classes have entered the dictionary: under new and distinct names, linked to superclasses
that they declare. -/
structure Joins (before after : Machine) (entered : List LinkedClass) : Prop where
  classes : after.classes = entered ++ before.classes
  seated : ∀ c ∈ entered, c.Seated after.classes ∧ c.superName ≠ none
  fresh : ∀ c ∈ entered, before.findClass? c.name = none
  distinct : (entered.map (·.name)).Nodup

theorem Joins.refl (machine : Machine) : Joins machine machine [] :=
  ⟨rfl, nofun, nofun, List.nodup_nil⟩

/-- Each class that is entered is linked to the one above it, and the answer is the class that was
asked for. -/
theorem Ascends.seated {registered : String → Option LinkedClass}
    {file : String → Except Obstacle Class} {below : List String} {name : String}
    {read : List Class} {summit answer : Except Obstacle LinkedClass}
    {entered classes : List LinkedClass} (ascends : Ascends registered file below name read summit)
    (descends : Descends summit read entered answer)
    (named : ∀ {name c}, file name = .ok c → c.name = name)
    (known : ∀ {name c}, registered name = some c → c ∈ classes ∧ c.name = name) :
    (∀ c ∈ entered, c.Seated (entered ++ classes) ∧ c.superName ≠ none) ∧
      ∀ c, answer = .ok c → c ∈ entered ++ classes ∧ c.name = name := by
  induction ascends generalizing entered answer with
  | registered found =>
      cases descends
      refine ⟨nofun, fun c same => ?_⟩
      cases same
      exact known found
  | repeated | unreadable =>
      cases descends
      exact ⟨nofun, nofun⟩
  | ownSuper =>
      cases descends with
      | interface descends | enters descends => cases descends
      | blocked descends =>
          cases descends
          exact ⟨nofun, nofun⟩
  | @super below name above c read summit absent fresh found next other ascends ih =>
      cases descends with
      | blocked descends | interface descends => exact ⟨(ih descends).1, nofun⟩
      | @enters _ _ entered super linked descends isClass links =>
          obtain ⟨seated, answered⟩ := ih descends
          obtain ⟨listed, superNamed⟩ := answered super rfl
          have superName := (LinkedClass.link_superName links).trans next
          refine ⟨fun d member => ?_, ?_⟩
          · rcases List.mem_cons.mp member with rfl | member
            · refine ⟨LinkedClass.seated_of_link links ?_ ?_, by rw [superName]; nofun⟩
              · rw [next, Option.map_some, superNamed]
              · rintro _ ⟨⟩
                exact List.mem_cons_of_mem _ listed
            · exact ⟨(seated d member).1.mono (List.subset_cons_self _ _), (seated d member).2⟩
          · rintro _ ⟨⟩
            exact ⟨List.mem_cons_self, (LinkedClass.link_name links).trans (named found)⟩

theorem findClass?_eq_some {machine : Machine} {name : String} {c : LinkedClass}
    (found : machine.findClass? name = some c) : c ∈ machine.classes ∧ c.name = name :=
  ⟨List.mem_of_find?_eq_some found, by simpa using List.find?_some found⟩

theorem Trail.Of.joins {machine : Machine} {name : String} {trail : Trail}
    (along : trail.Of machine name) :
    Joins machine (loaded machine trail.read trail.entered) trail.entered where
  classes := rfl
  seated := (along.ascends.seated along.descends name_of_fileOf findClass?_eq_some).1
  fresh c listed := by
    obtain ⟨d, member, same⟩ :=
      List.mem_map.mp (along.descends.suffix.1.mem (List.mem_map_of_mem listed))
    rw [← same]
    exact (along.ascends.fresh name_of_fileOf d member).2.1
  distinct := (along.ascends.distinct name_of_fileOf).sublist along.descends.suffix.1.sublist

/-- A class that is found has the name that was asked for, and was reached by entering all classes
that were read. -/
theorem ends_resolve_trail {machine : Machine} {name : String} {trail : Trail}
    (along : trail.Of machine name) :
    (resolve name).Ends machine
      (fun c later => c ∈ later.classes ∧ c.name = name ∧ Joins machine later trail.entered ∧
        trail.entered.map (·.name) = trail.read.map (·.name))
      fun _ later => Joins machine later trail.entered := by
  unfold Exec.Ends
  rw [resolve_of_trail along, Trail.outcome]
  cases answer : trail.answer with
  | error obstacle => exact along.joins
  | ok c =>
      obtain ⟨listed, named⟩ :=
        (along.ascends.seated along.descends name_of_fileOf findClass?_eq_some).2 c answer
      exact ⟨listed, named, along.joins, along.descends.suffix.2 ⟨c, answer⟩⟩

/-! ## Definitions -/

/-- A class file of the name is read on the way to the superclass. -/
def Meets (machine : Machine) (name : String) (superName : Option String) : Prop :=
  ∃ above trail, superName = some above ∧ Trail.Of trail machine above ∧
    name ∈ trail.read.map (·.name)

section Definitions

variable {machine : Machine} {name : String} {superName : Option String}

theorem ends_superOf_resolve (rooted : (machine.findClass? rootClass).isSome = true) :
    (superOf resolve name superName).Ends machine
      (fun super later => super.map (·.name) = superName ∧ (∀ d ∈ super, d ∈ later.classes) ∧
        ∃ entered, Joins machine later entered ∧
          (name ∈ entered.map (·.name) ↔ Meets machine name superName))
      fun _ later => ∃ entered, Joins machine later entered := by
  cases superName with
  | none =>
      refine ends_pure ⟨rfl, nofun, [], Joins.refl machine, iff_of_false List.not_mem_nil ?_⟩
      rintro ⟨_, _, ⟨⟩, _⟩
  | some above =>
      obtain ⟨trail, along⟩ := exists_trail rooted above
      unfold superOf
      dsimp only
      refine ends_guard (fun _ => ⟨[], Joins.refl machine⟩) fun _ => ?_
      refine Ends.before ((ends_resolve_trail along).and ends_self) (fun super later ended => ?_)
        fun _ later ended => ⟨_, ended.1⟩
      obtain ⟨⟨listed, named, joins, whole⟩, run⟩ := ended
      refine ends_guard (fun _ => ⟨_, joins⟩) fun _ => ends_pure ⟨?_, ?_, _, joins, ?_⟩
      · rw [Option.map_some, named]
      · rintro _ ⟨⟩
        exact listed
      · refine ⟨fun again => ⟨above, trail, rfl, along, whole ▸ again⟩, ?_⟩
        -- Any other trail from there comes to the same, as the run is the same.
        rintro ⟨_, other, ⟨⟩, along', again⟩
        obtain ⟨-, -, joins', whole'⟩ := (ends_resolve_trail along').of_ok run
        have same : trail.entered = other.entered :=
          List.append_cancel_right (joins.classes.symm.trans joins'.classes)
        rw [same, whole']
        exact again

theorem ends_superOfNew (rooted : (machine.findClass? rootClass).isSome = true) :
    (superOfNew name superName).Ends machine
      (fun super later => machine.findClass? name = none ∧ super.map (·.name) = superName ∧
        (∀ d ∈ super, d ∈ later.classes) ∧ ∃ entered, Joins machine later entered ∧
          (name ∈ entered.map (·.name) ↔ Meets machine name superName))
      fun _ later => ∃ entered, Joins machine later entered := by
  unfold superOfNew
  refine ends_bind_get ?_
  refine ends_guard (fun _ => ⟨[], Joins.refl machine⟩) fun free => ?_
  exact (ends_superOf_resolve rooted).mono
    (fun _ _ ended => ⟨Option.not_isSome_iff_eq_none.mp free, ended⟩) fun _ _ ended => ended

/-- What entering a class does to the dictionary. -/
theorem ends_add_linked {c : Class} {super : Option LinkedClass} :
    (add c super).Ends machine
      (fun linked later => later.classes = linked :: machine.classes ∧
        ∃ id, LinkedClass.link c id super = .ok linked)
      fun _ later => later = machine := by
  refine ends_bind_get (ends_bind_ofCause (fun linked links => ?_) fun _ _ => rfl)
  refine ends_bind_modify (ends_bind_modify (ends_pure ⟨?_, _, links⟩))
  dsimp only
  split <;> rfl

/-- A class of the name has been entered after its superclass was found. -/
structure Defines (machine : Machine) (name : String) (superName : Option String)
    (linked : LinkedClass) (later : Machine) (entered : List LinkedClass) : Prop where
  free : machine.findClass? name = none
  classes : later.classes = linked :: (entered ++ machine.classes)
  seated : linked.Seated later.classes
  named : linked.name = name
  declares : linked.superName = superName
  joins : ∃ middle, Joins machine middle entered
  meets : name ∈ entered.map (·.name) ↔ Meets machine name superName

/-- Find the superclass of a new class, make the class, and enter it. -/
theorem ends_entry {make : Exec Class} (rooted : (machine.findClass? rootClass).isSome = true)
    (makes : ∀ middle, make.Ends middle
      (fun c later => later = middle ∧ c.name = name ∧ c.superName = superName)
      fun _ later => later = middle) :
    (superOfNew name superName >>= fun super => make >>= fun c => add c super).Ends machine
      (fun linked later => ∃ entered, Defines machine name superName linked later entered)
      fun _ later => ∃ entered, Joins machine later entered := by
  refine (ends_superOfNew rooted).bind fun super middle ended => ?_
  obtain ⟨free, named, known, entered, joins, meets⟩ := ended
  refine Ends.before (makes middle) (fun c _ made => ?_) fun _ _ same => same ▸ ⟨_, joins⟩
  obtain ⟨rfl, rfl, rfl⟩ := made
  refine ends_add_linked.mono (fun linked later added => ?_) fun _ later same => same ▸ ⟨_, joins⟩
  obtain ⟨classes, id, links⟩ := added
  refine ⟨entered, free, by rw [classes, joins.classes], ?_, LinkedClass.link_name links,
    LinkedClass.link_superName links, ⟨_, joins⟩, meets⟩
  rw [classes]
  exact LinkedClass.seated_of_link links named fun d above => List.mem_cons_of_mem _ (known d above)

end Definitions

end Loading

/-! ## Requests -/

/-- A class is found, defined as it was read, or made of parts and defined. -/
inductive Request where
  | resolve (name : String)
  | define (c : Class)
  | build (parts : ClassParts)

namespace Request

open Loading

def run : Request → Exec LinkedClass
  | .resolve name => Loading.resolve name
  | .define c => Loading.define c
  | .build parts => Loading.defineParts parts

/-- The name and the superclass of the class that is defined. -/
def definition? : Request → Option (String × Option String)
  | .resolve _ => none
  | .define c => some (c.name, c.superName)
  | .build parts => some (parts.name, parts.superName)

/-- Only the root class is defined without a superclass. -/
def Rooted (request : Request) : Prop :=
  ∀ name, request.definition? = some (name, none) → name = rootClass

/-- A definition succeeds although a class file of the same name is read on the way to the
superclass. -/
def Overtaken (request : Request) (machine : Machine) : Prop :=
  ∃ name superName, request.definition? = some (name, superName) ∧
    Meets machine name superName ∧ ∃ c later, request.run machine = .ok c later

theorem ends_run_definition {request : Request} {name : String} {superName : Option String}
    {machine : Machine} (defines : request.definition? = some (name, superName))
    (rooted : (machine.findClass? rootClass).isSome = true) :
    request.run.Ends machine
      (fun linked later => ∃ entered, Defines machine name superName linked later entered)
      fun _ later => ∃ entered, Joins machine later entered := by
  cases request with
  | resolve name => cases defines
  | define c =>
      cases defines
      have makes (middle : Machine) : (pure c : Exec Class).Ends middle
          (fun d later => later = middle ∧ d.name = c.name ∧ d.superName = c.superName)
          fun _ later => later = middle := ends_pure ⟨rfl, rfl, rfl⟩
      exact ends_entry rooted makes
  | build parts =>
      cases defines
      refine ends_bind_ofHalt (fun _ _ => ?_) fun _ _ => ⟨[], Joins.refl machine⟩
      have makes (middle : Machine) : (do
          Exec.ofHalt parts.checkFields
          Exec.ofHalt parts.toClass : Exec Class).Ends middle
          (fun c later => later = middle ∧ c.name = parts.name ∧ c.superName = parts.superName)
          fun _ later => later = middle := by
        refine ends_bind_ofHalt (fun _ _ => ?_) fun _ _ => rfl
        cases made : parts.toClass with
        | error halt => exact rfl
        | ok c => exact ⟨rfl, names_of_toClass made⟩
      have ends := ends_entry rooted makes
      simpa only [bind_assoc] using ends

/-- Finding a class is no definition. -/
theorem ends_run_resolve {request : Request} {machine : Machine}
    (finds : request.definition? = none) (rooted : (machine.findClass? rootClass).isSome = true) :
    request.run.Ends machine (fun _ later => ∃ entered, Joins machine later entered)
      fun _ later => ∃ entered, Joins machine later entered := by
  cases request with
  | define | build => cases finds
  | resolve name =>
      obtain ⟨trail, along⟩ := exists_trail rooted name
      exact (ends_resolve_trail along).mono (fun _ _ ended => ⟨_, ended.2.2.1⟩)
        fun _ _ joins => ⟨_, joins⟩

end Request

/-! ## One request -/

namespace Machine

/-- The root class is there, and every class is linked to a superclass that is there. -/
structure Formed (machine : Machine) : Prop where
  rooted : (machine.findClass? rootClass).isSome = true
  seated : ∀ c ∈ machine.classes, c.Seated machine.classes

/-- No two classes have the same name. -/
def Distinct (machine : Machine) : Prop := (machine.classes.map (·.name)).Nodup

/-- Only the root class has no superclass. -/
def Headed (machine : Machine) : Prop :=
  ∀ c ∈ machine.classes, c.superName = none → c.name = rootClass

theorem isSome_findClass?_mono {machine later : Machine} {name : String}
    (known : (machine.findClass? name).isSome = true) (grows : machine.classes ⊆ later.classes) :
    (later.findClass? name).isSome = true := by
  unfold findClass? at known ⊢
  rw [List.find?_isSome] at known ⊢
  obtain ⟨c, member, same⟩ := known
  exact ⟨c, grows member, same⟩

theorem not_mem_names {machine : Machine} {name : String} (absent : machine.findClass? name = none) :
    name ∉ machine.classes.map (·.name) := by
  intro taken
  obtain ⟨c, known, same⟩ := List.mem_map.mp taken
  exact findClass?_eq_none_iff.mp absent c known same

end Machine

namespace Loading

open Machine

variable {machine later : Machine} {entered : List LinkedClass}

theorem Joins.grows (joins : Joins machine later entered) : machine.classes ⊆ later.classes := by
  rw [joins.classes]
  exact List.subset_append_right _ _

theorem Joins.formed (joins : Joins machine later entered) (formed : machine.Formed) :
    later.Formed := by
  refine ⟨isSome_findClass?_mono formed.rooted joins.grows, fun c member => ?_⟩
  rw [joins.classes] at member
  rcases List.mem_append.mp member with new | old
  · exact (joins.seated c new).1
  · exact (formed.seated c old).mono joins.grows

theorem Joins.distinct_iff (joins : Joins machine later entered) :
    later.Distinct ↔ machine.Distinct := by
  have apart : (entered.map (·.name)).Disjoint (machine.classes.map (·.name)) := by
    intro name new old
    obtain ⟨c, listed, rfl⟩ := List.mem_map.mp new
    exact not_mem_names (joins.fresh c listed) old
  unfold Distinct
  rw [joins.classes, List.map_append, List.nodup_append']
  exact ⟨fun both => both.2.1, fun old => ⟨joins.distinct, old, apart⟩⟩

theorem Joins.headed (joins : Joins machine later entered) (headed : machine.Headed) :
    later.Headed := by
  intro c member bare
  rw [joins.classes] at member
  rcases List.mem_append.mp member with new | old
  · exact absurd bare (joins.seated c new).2
  · exact headed c old bare

section Defines

variable {name : String} {superName : Option String} {linked : LinkedClass}

theorem Defines.formed (defined : Defines machine name superName linked later entered)
    (formed : machine.Formed) : later.Formed := by
  obtain ⟨middle, joins⟩ := defined.joins
  have before := joins.formed formed
  have classes : later.classes = linked :: middle.classes := by rw [defined.classes, joins.classes]
  have grows : middle.classes ⊆ later.classes := by
    rw [classes]
    exact List.subset_cons_self _ _
  refine ⟨isSome_findClass?_mono before.rooted grows, fun c member => ?_⟩
  rw [classes] at member
  rcases List.mem_cons.mp member with rfl | old
  · exact defined.seated
  · exact (before.seated c old).mono grows

/-- A name is taken twice just if it was taken on the way to the superclass. -/
theorem Defines.distinct_iff (defined : Defines machine name superName linked later entered) :
    later.Distinct ↔ machine.Distinct ∧ ¬ Meets machine name superName := by
  obtain ⟨middle, joins⟩ := defined.joins
  have taken : linked.name ∈ middle.classes.map (·.name) ↔ Meets machine name superName := by
    rw [defined.named, joins.classes, List.map_append, List.mem_append, ← defined.meets]
    exact ⟨fun either => either.resolve_right (not_mem_names defined.free), .inl⟩
  rw [← joins.distinct_iff, ← taken]
  unfold Distinct
  rw [defined.classes, ← joins.classes, List.map_cons, List.nodup_cons]
  exact and_comm

theorem Defines.headed (defined : Defines machine name superName linked later entered)
    (rooted : superName = none → name = rootClass) (headed : machine.Headed) : later.Headed := by
  obtain ⟨middle, joins⟩ := defined.joins
  intro c member bare
  rw [defined.classes, ← joins.classes] at member
  rcases List.mem_cons.mp member with rfl | old
  · rw [defined.named]
    exact rooted (defined.declares.symm.trans bare)
  · exact joins.headed headed c old bare

end Defines

end Loading

namespace Request

open Loading Machine

variable {machine : Machine}

/-- What one request does to the dictionary. -/
theorem step (request : Request) (formed : machine.Formed) :
    (request.run.after machine).Formed ∧
      ((request.run.after machine).Distinct ↔ machine.Distinct ∧ ¬ request.Overtaken machine) ∧
      (request.Rooted → machine.Headed → (request.run.after machine).Headed) := by
  have joined {entered : List LinkedClass} (joins : Joins machine (request.run.after machine) entered)
      (regular : ¬ request.Overtaken machine) :
      (request.run.after machine).Formed ∧
        ((request.run.after machine).Distinct ↔ machine.Distinct ∧ ¬ request.Overtaken machine) ∧
        (request.Rooted → machine.Headed → (request.run.after machine).Headed) :=
    ⟨joins.formed formed, joins.distinct_iff.trans (and_iff_left regular).symm,
      fun _ headed => joins.headed headed⟩
  cases defines : request.definition? with
  | none =>
      obtain ⟨entered, joins⟩ := (ends_run_resolve defines formed.rooted).after
      refine joined joins ?_
      rintro ⟨_, _, defines', _⟩
      rw [defines] at defines'
      cases defines'
  | some definition =>
      obtain ⟨name, superName⟩ := definition
      have ends := ends_run_definition defines formed.rooted
      cases run : request.run machine with
      | error halt later =>
          obtain ⟨entered, joins⟩ := ends.of_error run
          have same : request.run.after machine = later := by rw [Exec.after, run]
          refine joined (same ▸ joins) ?_
          rintro ⟨_, _, _, _, c, last, run'⟩
          rw [run] at run'
          cases run'
      | ok linked later =>
          obtain ⟨entered, defined⟩ := ends.of_ok run
          have same : request.run.after machine = later := by rw [Exec.after, run]
          have overtaken : request.Overtaken machine ↔ Meets machine name superName := by
            refine ⟨?_, fun meets => ⟨name, superName, defines, meets, linked, later, run⟩⟩
            rintro ⟨_, _, defines', meets, _⟩
            cases defines.symm.trans defines'
            exact meets
          rw [same, overtaken]
          refine ⟨defined.formed formed, defined.distinct_iff, fun rooted headed => ?_⟩
          exact defined.headed (fun bare => rooted name (bare ▸ defines)) headed

end Request

/-! ## All requests -/

namespace Machine

open Loading

/-- The machine after some requests in a row, whether they succeed or not. -/
def afterAll (machine : Machine) : List Request → Machine
  | [] => machine
  | request :: rest => (request.run.after machine).afterAll rest

/-- One of the requests is a definition that is overtaken when its turn comes. -/
def Overtakes (machine : Machine) : List Request → Prop
  | [] => False
  | request :: rest => request.Overtaken machine ∨ (request.run.after machine).Overtakes rest

theorem formed_afterAll {machine : Machine} (formed : machine.Formed) (requests : List Request) :
    (machine.afterAll requests).Formed ∧
      ((machine.afterAll requests).Distinct ↔ machine.Distinct ∧ ¬ machine.Overtakes requests) ∧
      ((∀ request ∈ requests, request.Rooted) → machine.Headed →
        (machine.afterAll requests).Headed) := by
  induction requests generalizing machine with
  | nil => exact ⟨formed, (and_iff_left not_false).symm, fun _ headed => headed⟩
  | cons request rest ih =>
      obtain ⟨formed', distinct, headed⟩ := request.step formed
      obtain ⟨last, distinct', headed'⟩ := ih formed'
      refine ⟨last, ?_, fun rooted before => ?_⟩
      · unfold afterAll Overtakes
        rw [distinct', distinct, not_or, and_assoc]
      · exact headed' (fun other listed => rooted other (List.mem_cons_of_mem request listed))
          (headed (rooted request List.mem_cons_self) before)

/-! ## The start -/

theorem superAmong?_eq_some {classes : List LinkedClass} {name : String}
    {superName : Option String} {super : Option LinkedClass}
    (among : superAmong? classes name superName = some super) :
    super.map (·.name) = superName ∧ ∀ d ∈ super, d ∈ classes := by
  unfold superAmong? at among
  split at among
  · cases among
    exact ⟨rfl, nofun⟩
  · split at among
    · cases among
    · rename_i above _ d found
      split at among
      · cases among
      · cases among
        have named : d.name = above := by simpa using List.find?_some found
        refine ⟨by rw [Option.map_some, named], ?_⟩
        rintro _ ⟨⟩
        exact List.mem_of_find?_eq_some found

theorem seated_enterParts? {classes later : List LinkedClass} {parts : ClassParts}
    (enters : enterParts? classes parts = some later) (seated : ∀ c ∈ classes, c.Seated classes) :
    ∀ c ∈ later, c.Seated later := by
  unfold enterParts? at enters
  split at enters
  · cases enters
  · split at enters
    · cases enters
    · rename_i super among
      split at enters
      · rename_i c _ _ made
        split at enters
        · rename_i linked links
          cases enters
          obtain ⟨named, known⟩ := superAmong?_eq_some among
          intro d member
          rcases List.mem_cons.mp member with rfl | old
          · refine LinkedClass.seated_of_link links ?_ fun e above =>
              List.mem_cons_of_mem _ (known e above)
            rw [named, (names_of_toClass made).2]
          · exact (seated d old).mono (List.subset_cons_self _ _)
        · cases enters
      · cases enters

theorem seated_builtinClasses : ∀ c ∈ builtinClasses, c.Seated builtinClasses := by
  suffices all : ∀ (specs : List Builtin.Spec) (classes later : List LinkedClass),
      specs.foldlM (fun classes spec => enterParts? classes spec.parts) classes = some later →
        (∀ c ∈ classes, c.Seated classes) → ∀ c ∈ later, c.Seated later from
    all _ _ _ enters_builtinClasses nofun
  intro specs
  induction specs with
  | nil =>
      rintro classes _ ⟨⟩ seated
      exact seated
  | cons spec rest ih =>
      intro classes later enters seated
      rw [List.foldlM_cons] at enters
      obtain ⟨middle, first, enters'⟩ := Option.bind_eq_some_iff.mp enters
      exact ih middle later enters' (seated_enterParts? first seated)

theorem formed_start {options : Options} {files : Files} {machine : Machine}
    (started : Machine.start options files = .ok machine) :
    machine.Formed ∧ machine.Distinct ∧ machine.Headed := by
  obtain ⟨heap, rfl⟩ := exists_start started
  have classes : (blank options files heap).withBuiltins.classes = builtinClasses :=
    classes_withBuiltins rfl
  obtain ⟨rooted, distinct, headed⟩ : (builtinClasses.find? (·.name == rootClass)).isSome = true ∧
      (builtinClasses.map (·.name)).Nodup ∧
      ∀ c ∈ builtinClasses, c.superName = none → c.name = rootClass := by decide +kernel
  refine ⟨⟨?_, ?_⟩, ?_, ?_⟩
  · rw [findClass?, classes]
    exact rooted
  · rw [classes]
    exact seated_builtinClasses
  · rw [Distinct, classes]
    exact distinct
  · rw [Headed, classes]
    exact headed

/-- **The dictionary is well formed, unless a definition is overtaken.** Whatever is requested of a
machine after its start, every class of the dictionary is linked, and every class but the root
class is linked to a class of the dictionary that has the name of its declared superclass. Two
classes have the same name just if, for some definition that succeeded, a class file of the same
name was read on the way to the superclass. -/
theorem dictionary_formed_unless_overtaken {options : Options} {files : Files} {machine : Machine}
    (started : Machine.start options files = .ok machine) (requests : List Request) :
    (∀ c ∈ (machine.afterAll requests).classes, c.Seated (machine.afterAll requests).classes) ∧
      ((∀ request ∈ requests, request.Rooted) → ∀ c ∈ (machine.afterAll requests).classes,
        c.name ≠ rootClass → ∃ super ∈ (machine.afterAll requests).classes,
          c.superName = some super.name ∧ c.superId? = some super.id) ∧
      ((machine.afterAll requests).Distinct ↔ ¬ machine.Overtakes requests) := by
  obtain ⟨formed, distinct, headed⟩ := formed_start started
  obtain ⟨last, distinct', headed'⟩ := formed_afterAll formed requests
  refine ⟨last.seated, fun rooted c known other => ?_, distinct'.trans (and_iff_right distinct)⟩
  exact (last.seated c known).super fun bare => other (headed' rooted headed c known bare)

/-- A class is defined whose superclass has a file and extends, in its file, a class of the same name
that has a file as well. -/
theorem overtaken_extending : Request.Overtaken (.define (plain "A" "B").toClass) extending := by
  obtain ⟨top, a, b, along⟩ := trail_extending
  have again : (plain "A" rootClass).toClass ∈ [(plain "B" "A").toClass, (plain "A" rootClass).toClass] :=
    List.mem_cons_of_mem _ List.mem_cons_self
  have free : extending.findClass? "A" = none := (along.ascends.fresh name_of_fileOf _ again).2.1
  have classy : ¬ b.isInterface = true := by
    rcases along.descends.isInterface with ⟨impossible, -⟩ | ⟨_, ⟨⟩, same⟩
    · cases impossible
    · rw [same]
      decide +kernel
  refine ⟨"A", some "B", rfl, ⟨"B", _, rfl, along, List.mem_map_of_mem again⟩, ?_⟩
  have found : superOfNew "A" (some "B") extending =
      .ok (some b) (loaded extending [(plain "B" "A").toClass, (plain "A" rootClass).toClass] [b, a]) := by
    unfold superOfNew
    rw [bind_get, free]
    have other : "B" ≠ "A" := by decide
    refine (superOf_of_other other).trans ((bind_of_ok (resolve_of_trail along)).trans ?_)
    rw [if_neg classy]
    rfl
  have read : Class.ofBytes "A" (plain "A" "B").bytes = .ok (plain "A" "B").toClass := by
    decide +kernel
  obtain ⟨linked, links⟩ := Class.exists_link read _ (some b)
  exact ⟨linked, _, (bind_of_ok found).trans (add_of_ok links)⟩

theorem dictionary_formed_unless_overtaken_extending :
    (extending.afterAll [.resolve "B"]).Distinct ∧
      ¬ (extending.afterAll [.define (plain "A" "B").toClass]).Distinct := by
  have started : Machine.start .standard extension = .ok extending := start_eq_ok rfl
  obtain ⟨-, -, finding⟩ := dictionary_formed_unless_overtaken started [.resolve "B"]
  obtain ⟨-, -, defining⟩ :=
    dictionary_formed_unless_overtaken started [.define (plain "A" "B").toClass]
  refine ⟨finding.mpr ?_, fun distinct => defining.mp distinct (.inl overtaken_extending)⟩
  rintro (⟨_, _, impossible, _⟩ | impossible) <;> cases impossible

end Machine

end Jvm
