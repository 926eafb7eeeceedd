/-
# Jvm.Proofs.Loading.Chain — a class is loaded along the chain of its superclasses

Loading a name goes through two phases. On the way up the file of each class is read and names the
next class, until a class of the dictionary is reached or an obstacle is met (`Ascends`). On the
way down the classes that were read are linked and entered, each after its superclass, until one
has an interface as its superclass (`Descends`).

`resolve` is shown to follow such a `Trail`, which there always is: the names on the way up are
distinct, and each has a file of its own, so that the number of files bounds their number.
-/
import Jvm.Machine.Start
import Jvm.Proofs.Action
import Jvm.Proofs.Loading.ClassPath

namespace Jvm

set_option autoImplicit false

open ClassFile.Reader (rootClass)

namespace Loading

/-! ## The trail of loading -/

/-- The way up from a name, while the names `below` are being loaded: the classes that are read, the
first one in front, and the class of the dictionary or the obstacle that is met after them. -/
inductive Ascends (registered : String → Option LinkedClass) (file : String → Except Obstacle Class) :
    List String → String → List Class → Except Obstacle LinkedClass → Prop
  | registered {below : List String} {name : String} {c : LinkedClass}
      (known : registered name = some c) : Ascends registered file below name [] (.ok c)
  | repeated {below : List String} {name : String} (absent : registered name = none)
      (again : name ∈ below) : Ascends registered file below name [] (.error (.repeated name))
  | unreadable {below : List String} {name : String} {obstacle : Obstacle}
      (absent : registered name = none) (fresh : name ∉ below)
      (stopped : file name = .error obstacle) :
      Ascends registered file below name [] (.error obstacle)
  | ownSuper {below : List String} {name : String} {c : Class} (absent : registered name = none)
      (fresh : name ∉ below) (found : file name = .ok c) (own : c.superName = some name) :
      Ascends registered file below name [c] (.error (.ownSuper name))
  | super {below : List String} {name above : String} {c : Class} {read : List Class}
      {summit : Except Obstacle LinkedClass} (absent : registered name = none)
      (fresh : name ∉ below) (found : file name = .ok c) (next : c.superName = some above)
      (other : above ≠ name) (ascends : Ascends registered file (name :: below) above read summit) :
      Ascends registered file below name (c :: read) summit

/-- The way down to a class: the classes that are entered, the last one in front, and the class that
is answered or the obstacle. -/
inductive Descends (summit : Except Obstacle LinkedClass) :
    List Class → List LinkedClass → Except Obstacle LinkedClass → Prop
  | summit : Descends summit [] [] summit
  | blocked {c : Class} {read : List Class} {entered : List LinkedClass} {obstacle : Obstacle}
      (descends : Descends summit read entered (.error obstacle)) :
      Descends summit (c :: read) entered (.error obstacle)
  | interface {c : Class} {read : List Class} {entered : List LinkedClass} {super : LinkedClass}
      (descends : Descends summit read entered (.ok super)) (above : super.isInterface = true) :
      Descends summit (c :: read) entered (.error (.interface c.name super.name))
  | enters {c : Class} {read : List Class} {entered : List LinkedClass} {super linked : LinkedClass}
      (descends : Descends summit read entered (.ok super)) (above : super.isInterface = false)
      (links : LinkedClass.link c ⟨c.name, 0⟩ (some super) = .ok linked) :
      Descends summit (c :: read) (linked :: entered) (.ok linked)

/-- A class of the dictionary is reached, and no superclass on the way is an interface. -/
def Clear (summit : Except Obstacle LinkedClass) (read : List Class) : Prop :=
  ∃ top, summit = .ok top ∧ (read ≠ [] → top.isInterface = false) ∧
    ∀ c ∈ read.tail, c.isInterface = false

/-- What loading a name comes to. -/
structure Trail where
  /-- The classes that are read, the first one in front. -/
  read : List Class
  /-- Where the way up ends. -/
  summit : Except Obstacle LinkedClass
  /-- The classes that are entered, the last one in front. -/
  entered : List LinkedClass
  answer : Except Obstacle LinkedClass

namespace Trail

/-- The trail that loading a name follows in a machine. -/
structure Of (trail : Trail) (machine : Machine) (name : String) : Prop where
  ascends : Ascends machine.findClass? (fileOf machine) [] name trail.read trail.summit
  descends : Descends trail.summit trail.read trail.entered trail.answer

end Trail

end Loading

/-! ## What a trail leaves behind -/

namespace Machine

/-- The classes are entered into the dictionary. -/
def entering (machine : Machine) (entered : List LinkedClass) : Machine :=
  { machine with classes := entered ++ machine.classes }

/-- Trace lines of loading are written, the last one in front. -/
def tracing (machine : Machine) (lines : List String) : Machine :=
  { machine with
    log := if machine.options.traceLoading then lines.map (· ++ "\n") ++ machine.log
      else machine.log }

variable {machine : Machine} {name : String}

theorem tracing_tracing (machine : Machine) (first second : List String) :
    (machine.tracing first).tracing second = machine.tracing (second ++ first) := by
  unfold tracing
  dsimp only
  split <;> simp

theorem entering_tracing (machine : Machine) (lines : List String) (entered : List LinkedClass) :
    (machine.tracing lines).entering entered = (machine.entering entered).tracing lines := rfl

theorem entering_entering (machine : Machine) (first second : List LinkedClass) :
    (machine.entering first).entering second = machine.entering (second ++ first) := by
  unfold entering
  dsimp only
  rw [List.append_assoc]

theorem entering_tracing_nil (machine : Machine) : (machine.entering []).tracing [] = machine := by
  unfold entering tracing
  simp

theorem findClass?_eq_none_iff :
    machine.findClass? name = none ↔ ∀ c ∈ machine.classes, c.name ≠ name := by
  unfold findClass?
  simp

/-- The first class of a name has the first number. -/
theorem generationOf_eq_zero (absent : machine.findClass? name = none) :
    machine.generationOf name = 0 := by
  unfold generationOf
  rw [List.countP_eq_zero]
  intro c known
  simpa using findClass?_eq_none_iff.mp absent c known

end Machine

namespace Loading

open Exec Machine

def loadedLine (classpath : String) (c : Class) : String :=
  s!"[Loaded {c.name} from {filePath classpath c.name}]"

def definedLine (c : LinkedClass) : String := s!"[Defined {c.name}]"

/-- The machine after some classes have been read and some entered. -/
def loaded (machine : Machine) (read : List Class) (entered : List LinkedClass) : Machine :=
  (machine.entering entered).tracing
    (entered.map definedLine ++ (read.map (loadedLine machine.options.classpath)).reverse)

section Loaded

variable {machine : Machine} {read : List Class} {entered : List LinkedClass}

theorem loaded_nil : loaded machine [] [] = machine := entering_tracing_nil machine

/-- What is read first is traced first. -/
theorem loaded_reading {c : Class} :
    loaded (machine.tracing [loadedLine machine.options.classpath c]) read entered =
      loaded machine (c :: read) entered := by
  unfold loaded
  rw [entering_tracing, tracing_tracing, List.map_cons, List.reverse_cons, List.append_assoc]
  rfl

theorem loaded_entering {linked : LinkedClass} :
    ((loaded machine read entered).entering [linked]).tracing [definedLine linked] =
      loaded machine read (linked :: entered) := by
  unfold loaded
  rw [entering_tracing, tracing_tracing, entering_entering]
  rfl

/-- A name that was not taken before is taken only by a class that has been entered. -/
theorem absent_loaded {name : String} (absent : machine.findClass? name = none)
    (apart : name ∉ entered.map (·.name)) : (loaded machine read entered).findClass? name = none := by
  rw [findClass?_eq_none_iff] at absent ⊢
  intro c member
  rcases List.mem_append.mp member with new | old
  · exact fun same => apart (List.mem_map.mpr ⟨c, new, same⟩)
  · exact absent c old

end Loaded

/-- A trail as the outcome of an action. -/
def Trail.outcome (trail : Trail) (machine : Machine) :
    EStateM.Result Halt Machine LinkedClass :=
  match trail.answer with
  | .ok c => .ok c (loaded machine trail.read trail.entered)
  | .error obstacle =>
      .error (.fault (obstacle.fault machine.options.classpath))
        (loaded machine trail.read trail.entered)

/-! ## One class -/

section Steps

variable {machine : Machine} {name : String} {c : Class}

theorem trace_eq (line : String) :
    Exec.trace (·.traceLoading) line machine = .ok () (machine.tracing [line]) := by
  show EStateM.Result.ok () _ = EStateM.Result.ok () _
  unfold tracing
  dsimp only
  split <;> rfl

theorem load_of_ok (found : fileOf machine name = .ok c) :
    load name machine =
      .ok (some c) (machine.tracing [loadedLine machine.options.classpath c]) := by
  obtain ⟨content, there, read, named⟩ := fileOf_eq_ok.mp found
  unfold load
  rw [bind_get]
  dsimp only
  rw [there]
  dsimp only
  rw [read, bind_of_ok (rfl : (ofFault (.ok c) : Exec Class) machine = .ok c machine),
    if_neg (not_not_intro named), ← named]
  exact bind_of_ok (trace_eq _)

/-- A file that is not there is told apart from one that is refused. -/
theorem load_of_error {obstacle : Obstacle} (stopped : fileOf machine name = .error obstacle) :
    (load name machine = .ok none machine ∧ obstacle = .missing name) ∨
      load name machine = .error (.fault (obstacle.fault machine.options.classpath)) machine := by
  unfold fileOf at stopped
  dsimp only at stopped
  unfold load
  rw [bind_get]
  dsimp only
  split at stopped
  · rename_i there
    cases stopped
    rw [there]
    exact .inl ⟨rfl, rfl⟩
  · rename_i content there
    rw [there]
    dsimp only
    right
    split at stopped
    · rename_i fault refused
      cases stopped
      rw [refused]
      rfl
    · rename_i d read
      rw [read]
      split at stopped
      · cases stopped
      · rename_i other
        cases stopped
        rw [bind_of_ok (rfl : (ofFault (.ok d) : Exec Class) machine = .ok d machine), if_pos other]
        rfl

theorem resolveWithin_of_known {fuel : Nat} {below : List String} {known : LinkedClass}
    (found : machine.findClass? name = some known) :
    resolveWithin fuel below name machine = .ok known machine := by
  unfold resolveWithin
  rw [bind_get, found]
  rfl

theorem resolveWithin_of_repeated {fuel : Nat} {below : List String}
    (absent : machine.findClass? name = none) (again : name ∈ below) :
    resolveWithin fuel below name machine =
      .error (.fault (Obstacle.fault machine.options.classpath (.repeated name))) machine := by
  unfold resolveWithin
  rw [bind_get, absent]
  dsimp only
  rw [if_pos again]
  rfl

theorem resolveWithin_of_unreadable {fuel : Nat} {below : List String} {obstacle : Obstacle}
    (absent : machine.findClass? name = none) (fresh : name ∉ below)
    (stopped : fileOf machine name = .error obstacle) :
    resolveWithin (fuel + 1) below name machine =
      .error (.fault (obstacle.fault machine.options.classpath)) machine := by
  unfold resolveWithin
  rw [bind_get, absent]
  dsimp only
  rw [if_neg fresh]
  rcases load_of_error stopped with ⟨nothing, rfl⟩ | refused
  · rw [bind_of_ok nothing]
    rfl
  · exact bind_of_error refused

theorem resolveWithin_of_readable {fuel : Nat} {below : List String}
    (absent : machine.findClass? name = none) (fresh : name ∉ below)
    (found : fileOf machine name = .ok c) :
    resolveWithin (fuel + 1) below name machine =
      (superOf (resolveWithin fuel (name :: below)) c.name c.superName >>= fun super => add c super)
        (machine.tracing [loadedLine machine.options.classpath c]) := by
  rw [resolveWithin]
  rw [bind_get, absent]
  dsimp only
  rw [if_neg fresh, bind_of_ok (load_of_ok found)]

theorem superOf_of_own {find : String → Exec LinkedClass} :
    superOf find name (some name) machine =
      .error (.fault (Obstacle.fault machine.options.classpath (.ownSuper name))) machine := by
  unfold superOf
  dsimp only
  rw [if_pos rfl]
  rfl

theorem superOf_of_other {find : String → Exec LinkedClass} {above : String} (other : above ≠ name) :
    superOf find name (some above) machine =
      (find above >>= fun super => do
        if super.isInterface then Exec.fail (.interfaceAsSuperclass name super.name)
        return some super) machine := by
  unfold superOf
  dsimp only
  rw [if_neg other]

theorem add_of_ok {super : Option LinkedClass} {linked : LinkedClass}
    (links : LinkedClass.link c ⟨c.name, machine.generationOf c.name⟩ super = .ok linked) :
    add c super machine =
      .ok linked ((machine.entering [linked]).tracing [definedLine linked]) := by
  unfold add definedLine
  rw [bind_get, links, LinkedClass.link_name links,
    bind_of_ok (rfl : (ofCause (.ok linked) : Exec LinkedClass) machine = .ok linked machine)]
  exact (bind_of_ok rfl).trans (bind_of_ok (trace_eq _))

end Steps

/-! ## The way up -/

section Ascends

variable {registered : String → Option LinkedClass} {file : String → Except Obstacle Class}
  {below : List String} {name : String} {read : List Class} {summit : Except Obstacle LinkedClass}

/-- The classes that are read are new, and none is being loaded already. -/
theorem Ascends.fresh (ascends : Ascends registered file below name read summit)
    (named : ∀ {name c}, file name = .ok c → c.name = name) :
    ∀ c ∈ read, file c.name = .ok c ∧ registered c.name = none ∧ c.name ∉ below := by
  induction ascends with
  | registered | repeated | unreadable => exact nofun
  | ownSuper absent fresh found own =>
      intro c listed
      obtain rfl := List.mem_singleton.mp listed
      rw [named found]
      exact ⟨found, absent, fresh⟩
  | super absent fresh found next other ascends ih =>
      intro c listed
      rcases List.mem_cons.mp listed with rfl | listed
      · rw [named found]
        exact ⟨found, absent, fresh⟩
      · obtain ⟨found', absent', apart⟩ := ih c listed
        exact ⟨found', absent', fun again => apart (List.mem_cons_of_mem _ again)⟩

theorem Ascends.distinct (ascends : Ascends registered file below name read summit)
    (named : ∀ {name c}, file name = .ok c → c.name = name) : (read.map (·.name)).Nodup := by
  induction ascends with
  | registered | repeated | unreadable => exact List.nodup_nil
  | ownSuper => exact List.nodup_singleton _
  | super absent fresh found next other ascends ih =>
      refine List.nodup_cons.mpr ⟨fun again => ?_, ih⟩
      obtain ⟨c, listed, same⟩ := List.mem_map.mp again
      exact (ascends.fresh named c listed).2.2 (List.mem_cons.mpr (.inl (same.trans (named found))))

theorem Ascends.reports (ascends : Ascends registered file below name read summit)
    {classpath : String} (stopped : ∀ {name obstacle}, file name = .error obstacle →
      obstacle.Reports (obstacle.fault classpath)) {obstacle : Obstacle}
    (blocked : summit = .error obstacle) : obstacle.Reports (obstacle.fault classpath) := by
  induction ascends with
  | registered => cases blocked
  | repeated | ownSuper =>
      cases blocked
      exact ⟨rfl, rfl⟩
  | unreadable absent fresh failed =>
      cases blocked
      exact stopped failed
  | super absent fresh found next other ascends ih => exact ih blocked

end Ascends

/-- From any name there is a way up, as there are only so many files. -/
theorem exists_ascends {machine : Machine} (rooted : (machine.findClass? rootClass).isSome = true)
    {below : List String} {name : String} (distinct : below.Nodup)
    (readable : ∀ name ∈ below, ∃ c, fileOf machine name = .ok c) :
    ∃ read summit, Ascends machine.findClass? (fileOf machine) below name read summit := by
  -- Every step takes a file that has not been taken before.
  induction room : machine.files.count + 1 - below.length generalizing below name with
  | zero => have := length_le_count distinct readable; omega
  | succ left ih =>
      cases known : machine.findClass? name with
      | some c => exact ⟨_, _, .registered known⟩
      | none =>
          by_cases again : name ∈ below
          · exact ⟨_, _, .repeated known again⟩
          cases found : fileOf machine name with
          | error obstacle => exact ⟨_, _, .unreadable known again found⟩
          | ok c =>
              cases super : c.superName with
              | none =>
                  obtain ⟨_, _, read, rfl⟩ := fileOf_eq_ok.mp found
                  rw [Class.rooted_of_ofBytes read super] at known
                  rw [known] at rooted
                  cases rooted
              | some above =>
                  by_cases own : above = name
                  · exact ⟨_, _, .ownSuper known again found (own ▸ super)⟩
                  have shorter : machine.files.count + 1 - (name :: below).length = left := by
                    rw [List.length_cons]
                    omega
                  obtain ⟨read, summit, ascends⟩ := @ih (name :: below) above
                    (List.nodup_cons.mpr ⟨again, distinct⟩)
                    (List.forall_mem_cons.mpr ⟨⟨c, found⟩, readable⟩) shorter
                  exact ⟨_, _, .super known again found super own ascends⟩

/-! ## The way down -/

section Descends

variable {summit answer : Except Obstacle LinkedClass} {read : List Class}
  {entered : List LinkedClass}

/-- The classes that are entered have the names of the last ones that were read, in order. -/
theorem Descends.suffix (descends : Descends summit read entered answer) :
    entered.map (·.name) <:+ read.map (·.name) ∧
      ((∃ c, answer = .ok c) → entered.map (·.name) = read.map (·.name)) := by
  induction descends with
  | summit => exact ⟨List.suffix_rfl, fun _ => rfl⟩
  | blocked descends ih | interface descends above ih =>
      exact ⟨ih.1.trans (List.suffix_cons _ _), fun ⟨_, impossible⟩ => by cases impossible⟩
  | enters descends above links ih =>
      have same := ih.2 ⟨_, rfl⟩
      rw [List.map_cons, List.map_cons, LinkedClass.link_name links, same]
      exact ⟨List.suffix_rfl, fun _ => rfl⟩

theorem Descends.reports (descends : Descends summit read entered answer) {classpath : String}
    (summits : ∀ {obstacle}, summit = .error obstacle → obstacle.Reports (obstacle.fault classpath))
    {obstacle : Obstacle} (blocked : answer = .error obstacle) :
    obstacle.Reports (obstacle.fault classpath) := by
  induction descends with
  | summit => exact summits blocked
  | blocked descends ih => exact ih blocked
  | interface =>
      cases blocked
      rfl
  | enters => cases blocked

/-- The class that is answered is an interface just if the one that it is linked from is one. -/
theorem Descends.isInterface {super : LinkedClass}
    (descends : Descends summit read entered (.ok super)) :
    (read = [] ∧ summit = .ok super) ∨
      ∃ c ∈ read.head?, super.isInterface = c.isInterface := by
  cases descends with
  | summit => exact .inl ⟨rfl, rfl⟩
  | enters descends above links =>
      refine .inr ⟨_, rfl, ?_⟩
      unfold LinkedClass.link at links
      split at links
      · cases links
      · cases links
        rfl

/-- A class is answered if nothing is in the way. -/
theorem Descends.clear_iff (descends : Descends summit read entered answer) :
    (∃ c, answer = .ok c) ↔ Clear summit read := by
  induction descends with
  | summit =>
      exact ⟨fun ⟨top, reached⟩ => ⟨top, reached, fun some => absurd rfl some, nofun⟩,
        fun ⟨top, reached, _⟩ => ⟨top, reached⟩⟩
  | blocked descends ih =>
      refine iff_of_false nofun fun ⟨top, reached, apart, classes⟩ => ?_
      obtain ⟨_, impossible⟩ := ih.mpr ⟨top, reached, fun _ => apart (List.cons_ne_nil _ _),
        fun c listed => classes c (List.mem_of_mem_tail listed)⟩
      cases impossible
  | @interface c read entered super descends above ih =>
      refine iff_of_false nofun fun ⟨top, reached, apart, classes⟩ => ?_
      rcases descends.isInterface with ⟨-, same⟩ | ⟨d, first, same⟩
      · obtain rfl := Except.ok.inj (same.symm.trans reached)
        rw [apart (List.cons_ne_nil _ _)] at above
        cases above
      · rw [same, classes d (List.mem_of_mem_head? first)] at above
        cases above
  | @enters c read entered super linked descends above links ih =>
      refine iff_of_true ⟨_, rfl⟩ ?_
      obtain ⟨top, reached, apart, classes⟩ := ih.mp ⟨super, rfl⟩
      rcases descends.isInterface with ⟨rfl, same⟩ | ⟨d, first, same⟩
      · obtain rfl := Except.ok.inj (same.symm.trans reached)
        exact ⟨_, reached, fun _ => above, nofun⟩
      · obtain ⟨rest, rfl⟩ := List.head?_eq_some_iff.mp first
        refine ⟨top, reached, fun _ => apart (List.cons_ne_nil _ _), fun e listed => ?_⟩
        rcases List.mem_cons.mp listed with rfl | listed
        · exact same ▸ above
        · exact classes e listed

theorem exists_descends (summit : Except Obstacle LinkedClass)
    (links : ∀ c ∈ read, ∀ super, ∃ linked, LinkedClass.link c ⟨c.name, 0⟩ super = .ok linked) :
    ∃ entered answer, Descends summit read entered answer := by
  induction read with
  | nil => exact ⟨_, _, .summit⟩
  | cons c read ih =>
      obtain ⟨entered, answer, descends⟩ := ih fun d listed => links d (List.mem_cons_of_mem c listed)
      cases answer with
      | error obstacle => exact ⟨_, _, .blocked descends⟩
      | ok super =>
          cases above : super.isInterface with
          | true => exact ⟨_, _, .interface descends above⟩
          | false =>
              obtain ⟨linked, links⟩ := links c List.mem_cons_self (some super)
              exact ⟨_, _, .enters descends above links⟩

end Descends

/-! ## Loading follows its trail -/

theorem exists_trail {machine : Machine} (rooted : (machine.findClass? rootClass).isSome = true)
    (name : String) : ∃ trail : Trail, trail.Of machine name := by
  obtain ⟨read, summit, ascends⟩ :
      ∃ read summit, Ascends machine.findClass? (fileOf machine) [] name read summit :=
    exists_ascends rooted List.nodup_nil nofun
  have links : ∀ c ∈ read, ∀ super, ∃ linked,
      LinkedClass.link c ⟨c.name, 0⟩ super = .ok linked := by
    intro c listed super
    obtain ⟨_, _, read, _⟩ := fileOf_eq_ok.mp (ascends.fresh name_of_fileOf c listed).1
    exact Class.exists_link read _ super
  obtain ⟨entered, answer, descends⟩ := exists_descends summit links
  exact ⟨⟨read, summit, entered, answer⟩, ascends, descends⟩

/-- The superclass is looked for once the class is read. It is what its own way up and down comes to,
unless that is an interface. -/
theorem superOf_of_above {find : String → Exec LinkedClass} {above : String} {machine : Machine}
    {c : Class} {read : List Class} {summit answer : Except Obstacle LinkedClass}
    {entered : List LinkedClass} (other : above ≠ c.name)
    (finds : find above (machine.tracing [loadedLine machine.options.classpath c]) =
      Trail.outcome ⟨read, summit, entered, answer⟩
        (machine.tracing [loadedLine machine.options.classpath c])) :
    superOf find c.name (some above) (machine.tracing [loadedLine machine.options.classpath c]) =
      match answer with
      | .error obstacle =>
          .error (.fault (obstacle.fault machine.options.classpath)) (loaded machine (c :: read) entered)
      | .ok super =>
          if super.isInterface then
            .error (.fault (Obstacle.fault machine.options.classpath (.interface c.name super.name)))
              (loaded machine (c :: read) entered)
          else .ok (some super) (loaded machine (c :: read) entered) := by
  rw [superOf_of_other other, ← loaded_reading]
  cases answer with
  | error obstacle =>
      rw [bind_of_error finds]
      rfl
  | ok super =>
      rw [bind_of_ok finds]
      dsimp only
      split <;> rfl

theorem resolveWithin_of_ascends {registered : String → Option LinkedClass}
    {file : String → Except Obstacle Class} {below : List String} {name : String}
    {read : List Class} {summit answer : Except Obstacle LinkedClass} {entered : List LinkedClass}
    {machine : Machine} {fuel : Nat} (ascends : Ascends registered file below name read summit)
    (descends : Descends summit read entered answer) (known : machine.findClass? = registered)
    (files : fileOf machine = file) (enough : read.length < fuel) :
    resolveWithin fuel below name machine =
      Trail.outcome ⟨read, summit, entered, answer⟩ machine := by
  have named {name : String} {c : Class} (found : file name = .ok c) : c.name = name := by
    rw [← files] at found
    exact name_of_fileOf found
  obtain ⟨fuel, rfl⟩ : ∃ n, fuel = n + 1 := ⟨fuel - 1, by omega⟩
  induction ascends generalizing machine fuel entered answer with
  | registered found =>
      cases descends
      rw [resolveWithin_of_known (known ▸ found), Trail.outcome, loaded_nil]
  | repeated absent again =>
      cases descends
      rw [resolveWithin_of_repeated (known ▸ absent) again, Trail.outcome, loaded_nil]
  | unreadable absent fresh stopped =>
      cases descends
      rw [resolveWithin_of_unreadable (known ▸ absent) fresh (files ▸ stopped), Trail.outcome,
        loaded_nil]
  | ownSuper absent fresh found own =>
      rw [resolveWithin_of_readable (known ▸ absent) fresh (files ▸ found), own, named found,
        bind_of_error superOf_of_own]
      cases descends with
      | interface descends | enters descends => cases descends
      | blocked descends =>
          cases descends
          rw [Trail.outcome, ← loaded_reading, loaded_nil]
          rfl
  | @super below name above c read summit absent fresh found next other ascends ih =>
      obtain ⟨fuel, rfl⟩ : ∃ n, fuel = n + 1 := ⟨fuel - 1, by rw [List.length_cons] at enough; omega⟩
      have room : read.length < fuel + 1 := Nat.lt_of_succ_lt_succ enough
      let middle := machine.tracing [loadedLine machine.options.classpath c]
      have known' : middle.findClass? = registered := known
      have files' : fileOf middle = file := files
      have answered {entered answer} (descends : Descends summit read entered answer) :=
        superOf_of_above (named found ▸ other) (ih descends known' files' fuel room)
      rw [resolveWithin_of_readable (known ▸ absent) fresh (files ▸ found), next]
      cases descends with
      | blocked descends => exact bind_of_error (answered descends)
      | interface descends isInterface =>
          exact bind_of_error ((answered descends).trans (if_pos isInterface))
      | @enters _ _ entered super linked descends isClass links =>
          have new : (loaded machine (c :: read) entered).findClass? c.name = none := by
            refine absent_loaded (by rw [known, named found]; exact absent) fun again => ?_
            obtain ⟨d, listed, same⟩ := List.mem_map.mp (descends.suffix.1.mem again)
            exact (ascends.fresh named d listed).2.2
              (List.mem_cons.mpr (.inl (same.trans (named found))))
          rw [← generationOf_eq_zero new] at links
          rw [bind_of_ok ((answered descends).trans (if_neg (by simp [isClass]))), add_of_ok links,
            loaded_entering]
          rfl

theorem Trail.Of.length_le {machine : Machine} {name : String} {trail : Trail}
    (along : trail.Of machine name) : trail.read.length ≤ machine.files.count := by
  have readable : ∀ name ∈ trail.read.map (·.name), ∃ c, fileOf machine name = .ok c := by
    intro name listed
    obtain ⟨c, member, rfl⟩ := List.mem_map.mp listed
    exact ⟨c, (along.ascends.fresh name_of_fileOf c member).1⟩
  have few := length_le_count (along.ascends.distinct name_of_fileOf) readable
  rwa [List.length_map] at few

theorem resolve_of_trail {machine : Machine} {name : String} {trail : Trail}
    (along : trail.Of machine name) : resolve name machine = trail.outcome machine :=
  (bind_of_ok rfl).trans (resolveWithin_of_ascends along.ascends along.descends rfl rfl
    (Nat.lt_succ_of_le along.length_le))

/-- The file of a class without members. -/
def plain (name super : String) : ClassFile.WrittenClass where
  minor := 0
  major := 52
  constants := [.utf8 name, .classRef 1, .utf8 super, .classRef 3]
  flags := 0x0021
  name := ⟨2, name⟩
  super := some ⟨4, super⟩
  interfaces := []
  fields := []
  methods := []
  attributes := []

/-- The files of two classes, of which the second extends the first. -/
def extension : Files where
  directories := []
  files := [⟨["A.class"], (plain "A" rootClass).bytes⟩, ⟨["B.class"], (plain "B" "A").bytes⟩]

/-- The built-in classes and the files. -/
def extending : Machine := (blank .standard extension (.empty 8388608)).withBuiltins

theorem fileOf_extending :
    fileOf extending "A" = .ok (plain "A" rootClass).toClass ∧
      fileOf extending "B" = .ok (plain "B" "A").toClass := by
  have same : extending.options = .standard ∧ extending.files = extension := by decide +kernel
  have first : Place.segments "./A.class" = [".", "A.class"] := by
    simp +decide [Place.segments, String.splitOn, String.splitOnAux]
  have second : Place.segments "./B.class" = [".", "B.class"] := by
    simp +decide [Place.segments, String.splitOn, String.splitOnAux]
  refine ⟨fileOf_eq_ok.mpr ⟨(plain "A" rootClass).bytes, ?_, by decide +kernel, rfl⟩,
    fileOf_eq_ok.mpr ⟨(plain "B" "A").bytes, ?_, by decide +kernel, rfl⟩⟩
  · have path : filePath Options.standard.classpath "A" = "./A.class" := by decide +kernel
    rw [same.1, same.2, path, Files.read?, first]
    decide +kernel
  · have path : filePath Options.standard.classpath "B" = "./B.class" := by decide +kernel
    rw [same.1, same.2, path, Files.read?, second]
    decide +kernel

/-- The classes of both files are read from the second name. -/
theorem trail_extending :
    ∃ top a b, Trail.Of ⟨[(plain "B" "A").toClass, (plain "A" rootClass).toClass], .ok top, [b, a],
      .ok b⟩ extending "B" := by
  obtain ⟨fileA, fileB⟩ := fileOf_extending
  obtain ⟨_, _, readA, _⟩ := fileOf_eq_ok.mp fileA
  obtain ⟨_, _, readB, _⟩ := fileOf_eq_ok.mp fileB
  obtain ⟨newA, newB, top, known, classy⟩ : extending.findClass? "A" = none ∧
      extending.findClass? "B" = none ∧ ∃ top, extending.findClass? rootClass = some top ∧
        top.isInterface = false := by decide +kernel
  obtain ⟨a, linksA⟩ := Class.exists_link readA ⟨"A", 0⟩ (some top)
  obtain ⟨b, linksB⟩ := Class.exists_link readB ⟨"B", 0⟩ (some a)
  have first : Descends (.ok top) [(plain "A" rootClass).toClass] [a] (.ok a) :=
    .enters .summit classy linksA
  have notInterface : a.isInterface = false := by
    rcases first.isInterface with ⟨impossible, -⟩ | ⟨_, ⟨⟩, same⟩
    · cases impossible
    · exact same.trans (by decide +kernel)
  refine ⟨top, a, b, ?_, .enters first notInterface linksB⟩
  exact .super newB nofun fileB rfl (by decide)
    (.super newA (by decide) fileA rfl (by decide) (.registered known))

end Loading

end Jvm
