/-
# Jvm.Proofs.Loading.Foresight — what is loaded does not depend on when

Classes are loaded in whatever order they are asked for. A machine foresees another one if that one
has come from it by loading classes, in any order and any number (`Machine.Foresees`): each class
that has been loaded is the one that the first machine would load under that name. Then a name comes
to the same class or the same obstacle in both (`Foresees.ends_resolve`), and loading it leaves a
machine that is foreseen again. So in two machines that one machine foresees, all names and ids that
are known to both stand for the same classes.
-/
import Jvm.Proofs.Loading.Dictionary

namespace Jvm

set_option autoImplicit false

open Exec Loading
open ClassFile.Reader (rootClass)

namespace Loading

/-! ## Trails are determined -/

section Determined

variable {registered : String → Option LinkedClass} {file : String → Except Obstacle Class}
  {below below' : List String} {name : String} {read read' : List Class}
  {summit summit' answer answer' : Except Obstacle LinkedClass} {entered entered' : List LinkedClass}

theorem Ascends.determined (one : Ascends registered file below name read summit)
    (other : Ascends registered file below name read' summit') : read' = read ∧ summit' = summit := by
  induction one generalizing read' with
  | registered known =>
      cases other with
      | registered known' =>
          obtain rfl := Option.some.inj (known.symm.trans known')
          exact ⟨rfl, rfl⟩
      | repeated absent | unreadable absent | ownSuper absent | super absent =>
          cases known.symm.trans absent
  | repeated absent again =>
      cases other with
      | registered known => cases known.symm.trans absent
      | repeated => exact ⟨rfl, rfl⟩
      | unreadable _ fresh | ownSuper _ fresh | super _ fresh => exact absurd again fresh
  | unreadable absent fresh stopped =>
      cases other with
      | registered known => cases known.symm.trans absent
      | repeated _ again => exact absurd again fresh
      | unreadable _ _ stopped' =>
          cases stopped.symm.trans stopped'
          exact ⟨rfl, rfl⟩
      | ownSuper _ _ found | super _ _ found => cases stopped.symm.trans found
  | ownSuper absent fresh found own =>
      cases other with
      | registered known => cases known.symm.trans absent
      | repeated _ again => exact absurd again fresh
      | unreadable _ _ stopped => cases stopped.symm.trans found
      | ownSuper _ _ found' =>
          cases found.symm.trans found'
          exact ⟨rfl, rfl⟩
      | super _ _ found' next apart =>
          cases found.symm.trans found'
          cases own.symm.trans next
          exact absurd rfl apart
  | super absent fresh found next apart ascends ih =>
      cases other with
      | registered known => cases known.symm.trans absent
      | repeated _ again => exact absurd again fresh
      | unreadable _ _ stopped => cases stopped.symm.trans found
      | ownSuper _ _ found' own =>
          cases found.symm.trans found'
          cases own.symm.trans next
          exact absurd rfl apart
      | super _ _ found' next' _ ascends' =>
          cases found.symm.trans found'
          cases next.symm.trans next'
          obtain ⟨rfl, rfl⟩ := ih ascends'
          exact ⟨rfl, rfl⟩

theorem Descends.determined (one : Descends summit read entered answer)
    (other : Descends summit read entered' answer') : entered' = entered ∧ answer' = answer := by
  induction one generalizing entered' answer' with
  | summit =>
      cases other
      exact ⟨rfl, rfl⟩
  | blocked descends ih =>
      cases other with
      | blocked descends' =>
          obtain ⟨rfl, same⟩ := ih descends'
          cases same
          exact ⟨rfl, rfl⟩
      | interface descends' | enters descends' => cases (ih descends').2
  | interface descends above ih =>
      cases other with
      | blocked descends' => cases (ih descends').2
      | interface descends' =>
          obtain ⟨rfl, same⟩ := ih descends'
          cases same
          exact ⟨rfl, rfl⟩
      | enters descends' above' =>
          cases (ih descends').2
          cases above.symm.trans above'
  | enters descends above links ih =>
      cases other with
      | blocked descends' => cases (ih descends').2
      | interface descends' above' =>
          cases (ih descends').2
          cases above.symm.trans above'
      | enters descends' _ links' =>
          obtain ⟨rfl, same⟩ := ih descends'
          cases same
          cases links.symm.trans links'
          exact ⟨rfl, rfl⟩

/-- A way up that reaches a class is one as well while other names are being loaded, if it comes
across none of them. -/
theorem Ascends.beside {top : LinkedClass} (ascends : Ascends registered file below name read (.ok top))
    (named : ∀ {name c}, file name = .ok c → c.name = name)
    (apart : ∀ c ∈ read, c.name ∉ below') : Ascends registered file below' name read (.ok top) := by
  generalize reached : Except.ok top = summit at ascends
  induction ascends generalizing below' with
  | registered known =>
      cases reached
      exact .registered known
  | repeated | unreadable | ownSuper => cases reached
  | @super below name above c read summit absent fresh found next other ascends ih =>
      have fresh' : name ∉ below' := named found ▸ apart c List.mem_cons_self
      refine .super absent fresh' found next other (ih (fun d listed => ?_) reached)
      have passed := (ascends.fresh named d listed).2.2
      rintro (_ | ⟨_, again⟩)
      · exact passed List.mem_cons_self
      · exact apart d (List.mem_cons_of_mem c listed) again

/-- The name of a way up along which something is read is that of the first class. -/
theorem Ascends.name_of_cons {c : Class} (ascends : Ascends registered file below name (c :: read) summit)
    (named : ∀ {name c}, file name = .ok c → c.name = name) : c.name = name := by
  cases ascends with
  | ownSuper _ _ found | super _ _ found => exact named found

/-- A class that is entered on the way is where a trail of its own leads. -/
theorem Descends.trail {c : LinkedClass} (descends : Descends summit read entered answer)
    (ascends : Ascends registered file below name read summit)
    (named : ∀ {name c}, file name = .ok c → c.name = name) (member : c ∈ entered) :
    ∃ read' entered', Ascends registered file [] c.name read' summit ∧
      Descends summit read' entered' (.ok c) ∧ entered' ⊆ entered := by
  induction descends generalizing below name with
  | summit => cases member
  | blocked descends ih | interface descends _ ih =>
      cases ascends with
      | ownSuper => cases descends <;> cases member
      | super _ _ _ _ _ ascends => exact ih ascends member
  | @enters d read entered super linked descends above links ih =>
      rcases List.mem_cons.mp member with rfl | member
      · obtain ⟨top, rfl, -⟩ := descends.clear_iff.mp ⟨super, rfl⟩
        have same : c.name = name :=
          (LinkedClass.link_name links).trans (ascends.name_of_cons named)
        exact ⟨_, _, same ▸ ascends.beside named fun _ _ => List.not_mem_nil,
          .enters descends above links, fun _ listed => listed⟩
      · cases ascends with
        | ownSuper => cases descends
        | super _ _ _ _ _ ascends =>
            obtain ⟨read', entered', ascends', descends', within⟩ := ih ascends member
            exact ⟨read', entered', ascends', descends', List.subset_cons_of_subset _ within⟩

end Determined

theorem Trail.Of.determined {machine : Machine} {name : String} {one other : Trail}
    (along : one.Of machine name) (along' : other.Of machine name) :
    other.read = one.read ∧ other.summit = one.summit ∧ other.entered = one.entered ∧
      other.answer = one.answer := by
  obtain ⟨read, summit⟩ := along.ascends.determined along'.ascends
  have descends := along'.descends
  rw [read, summit] at descends
  obtain ⟨entered, answer⟩ := along.descends.determined descends
  exact ⟨read, summit, entered, answer⟩

section Loaded

variable {machine : Machine} {trail : Trail} {name other : String} {c : LinkedClass}

theorem findClass?_loaded (along : trail.Of machine name)
    (found : machine.findClass? other = some c) :
    (loaded machine trail.read trail.entered).findClass? other = some c := by
  have apart : trail.entered.find? (·.name == other) = none := by
    refine List.find?_eq_none.mpr fun d member same => ?_
    have same : d.name = other := by simpa using same
    obtain ⟨k, listed, named⟩ := List.mem_map.mp
      (along.descends.suffix.1.mem (List.mem_map_of_mem member))
    have absent := (along.ascends.fresh name_of_fileOf k listed).2.1
    rw [named, same, found] at absent
    cases absent
  show (trail.entered ++ machine.classes).find? (·.name == other) = some c
  rw [List.find?_append, apart]
  exact found

/-- What is entered is found under its name. -/
theorem findClass?_entered (along : trail.Of machine name) (member : c ∈ trail.entered) :
    (loaded machine trail.read trail.entered).findClass? c.name = some c := by
  have distinct : (trail.entered.map (·.name)).Nodup :=
    (along.ascends.distinct name_of_fileOf).sublist along.descends.suffix.1.sublist
  show (trail.entered ++ machine.classes).find? (·.name == c.name) = some c
  rw [List.find?_append]
  cases found : trail.entered.find? (·.name == c.name) with
  | none => exact absurd (beq_self_eq_true c.name) (List.find?_eq_none.mp found c member)
  | some d =>
      have same : d.name = c.name := by simpa using List.find?_some found
      rw [List.inj_on_of_nodup_map distinct (List.mem_of_find?_eq_some found) member same]
      rfl

theorem findClass?_loaded_cases
    (found : (loaded machine trail.read trail.entered).findClass? other = some c) :
    machine.findClass? other = some c ∨ c ∈ trail.entered ∧ c.name = other := by
  have found' : (trail.entered ++ machine.classes).find? (·.name == other) = some c := found
  rw [List.find?_append] at found'
  cases first : trail.entered.find? (·.name == other) with
  | none =>
      rw [first] at found'
      exact .inl found'
  | some d =>
      rw [first] at found'
      obtain rfl := Option.some.inj found'
      exact .inr ⟨List.mem_of_find?_eq_some first, by simpa using List.find?_some first⟩

end Loaded

end Loading

/-! ## Machines that are foreseen -/

namespace Machine

/-- The second machine is the first one with classes loaded that the first one would load. -/
structure Foresees (base later : Machine) : Prop where
  options : later.options = base.options
  files : later.files = base.files
  kept : base.classes ⊆ later.classes
  known : ∀ {name : String} {c : LinkedClass}, base.findClass? name = some c →
    later.findClass? name = some c
  loads : ∀ {name : String} {c : LinkedClass}, later.findClass? name = some c →
    ∃ trail : Loading.Trail, trail.Of base name ∧ trail.answer = .ok c ∧
      ∀ d ∈ trail.read, (later.findClass? d.name).isSome = true
  named : ∀ c ∈ later.classes, c ∈ base.classes ∨ later.findClass? c.name = some c

theorem Foresees.refl (machine : Machine) : machine.Foresees machine where
  options := rfl
  files := rfl
  kept _ known := known
  known found := found
  loads found := ⟨⟨[], .ok _, [], .ok _⟩, ⟨.registered found, .summit⟩, rfl, nofun⟩
  named _ known := .inl known

namespace Foresees

variable {base one two : Machine} {name : String} {c d : LinkedClass}

theorem fileOf_eq (foresees : base.Foresees one) : fileOf one = fileOf base := by
  unfold fileOf
  rw [foresees.options, foresees.files]

theorem rooted (foresees : base.Foresees one) (rooted : (base.findClass? rootClass).isSome = true) :
    (one.findClass? rootClass).isSome = true := by
  obtain ⟨c, found⟩ := Option.isSome_iff_exists.mp rooted
  rw [foresees.known found]
  rfl

/-- A name stands for the same class in all machines that are foreseen and know it. -/
theorem same_of_name (foresees : base.Foresees one) (foresees' : base.Foresees two)
    (found : one.findClass? name = some c) (found' : two.findClass? name = some d) : c = d := by
  obtain ⟨trail, along, answer, -⟩ := foresees.loads found
  obtain ⟨trail', along', answer', -⟩ := foresees'.loads found'
  rw [(along.determined along').2.2.2, answer] at answer'
  exact Except.ok.inj answer'

/-- So does an id. -/
theorem same_of_id (foresees : base.Foresees one) (foresees' : base.Foresees two)
    (identified : one.Identified) (identified' : two.Identified) (known : c ∈ one.classes)
    (known' : d ∈ two.classes) (same : c.id = d.id) : c = d := by
  rcases foresees.named c known with old | found
  · exact identified'.eq_of_id (foresees'.kept old) known' same
  · rcases foresees'.named d known' with old | found'
    · exact identified.eq_of_id known (foresees.kept old) same
    · have named : c.name = d.name := by
        rw [← (identified.named c known).1, ← (identified'.named d known').1, same]
      exact same_of_name foresees foresees' found (named ▸ found')

/-- A class that has been loaded is where its way up in the first machine leads. -/
theorem answer_of_found (foresees : base.Foresees one) {below : List String} {read : List Class}
    {summit answer : Except Obstacle LinkedClass} {entered : List LinkedClass}
    (ascends : Ascends base.findClass? (fileOf base) below name read summit)
    (descends : Descends summit read entered answer)
    (absent : ∀ other ∈ below, one.findClass? other = none) (found : one.findClass? name = some c) :
    answer = .ok c ∧ ∀ d ∈ read, (one.findClass? d.name).isSome = true := by
  obtain ⟨trail, along, answers, passed⟩ := foresees.loads found
  obtain ⟨top, reached, -⟩ := along.descends.clear_iff.mp ⟨c, answers⟩
  have apart : ∀ d ∈ trail.read, d.name ∉ below := fun d listed again => by
    have missing := passed d listed
    rw [absent d.name again] at missing
    cases missing
  have beside := (reached ▸ along.ascends).beside name_of_fileOf apart
  obtain ⟨rfl, rfl⟩ := beside.determined ascends
  obtain ⟨-, rfl⟩ := (reached ▸ along.descends).determined descends
  exact ⟨answers, passed⟩

/-- There is a way up from the name that comes to the answer, and of the classes that have been read
elsewhere it passes those that are not loaded yet. -/
def Rejoins (one : Machine) (below : List String) (name : String) (read : List Class)
    (answer : Except Obstacle LinkedClass) : Prop :=
  ∃ read' summit' entered', Ascends one.findClass? (fileOf one) below name read' summit' ∧
    Descends summit' read' entered' answer ∧
    ∀ c ∈ read, (one.findClass? c.name).isSome = true ∨ c ∈ read'

theorem rejoins_of_found (foresees : base.Foresees one) {below : List String} {read : List Class}
    {summit answer : Except Obstacle LinkedClass} {entered : List LinkedClass}
    (ascends : Ascends base.findClass? (fileOf base) below name read summit)
    (descends : Descends summit read entered answer)
    (absent : ∀ other ∈ below, one.findClass? other = none) (found : one.findClass? name = some c) :
    Rejoins one below name read answer := by
  obtain ⟨rfl, passed⟩ := foresees.answer_of_found ascends descends absent found
  exact ⟨_, _, _, .registered found, .summit, fun d listed => .inl (passed d listed)⟩

/-- The way up from a name in a machine that is foreseen ends at or before the end of the way up in
the first machine, and comes to the same. -/
theorem ascends (foresees : base.Foresees one) {below : List String} {read : List Class}
    {summit answer : Except Obstacle LinkedClass} {entered : List LinkedClass}
    (ascends : Ascends base.findClass? (fileOf base) below name read summit)
    (descends : Descends summit read entered answer)
    (absent : ∀ other ∈ below, one.findClass? other = none) :
    Rejoins one below name read answer := by
  induction ascends generalizing entered answer with
  | registered found =>
      cases descends
      exact ⟨_, _, _, .registered (foresees.known found), .summit, nofun⟩
  | repeated _ again =>
      cases descends
      exact ⟨_, _, _, .repeated (absent _ again) again, .summit, nofun⟩
  | @unreadable below name obstacle absent' fresh stopped =>
      cases found : one.findClass? name with
      | some c =>
          exact foresees.rejoins_of_found (.unreadable absent' fresh stopped) descends absent found
      | none =>
          cases descends
          exact ⟨_, _, _, .unreadable found fresh (foresees.fileOf_eq ▸ stopped), .summit, nofun⟩
  | @ownSuper below name c absent' fresh read own =>
      cases found : one.findClass? name with
      | some d =>
          exact foresees.rejoins_of_found (.ownSuper absent' fresh read own) descends absent found
      | none =>
          exact ⟨_, _, _, .ownSuper found fresh (foresees.fileOf_eq ▸ read) own, descends,
            fun e listed => .inr listed⟩
  | @super below name above c read summit absent' fresh readable next other ascends ih =>
      cases found : one.findClass? name with
      | some d =>
          exact foresees.rejoins_of_found (.super absent' fresh readable next other ascends) descends
            absent found
      | none =>
          have absent'' : ∀ other ∈ name :: below, one.findClass? other = none :=
            List.forall_mem_cons.mpr ⟨found, absent⟩
          -- the class itself is read in both machines, and the rest of the way is the same
          have extend {answer' : Except Obstacle LinkedClass} {entered' : List LinkedClass}
              (rest : Descends summit read entered' answer')
              (down : ∀ {summit' read' entered'}, Descends summit' read' entered' answer' →
                ∃ entered'', Descends summit' (c :: read') entered'' answer) :
              Rejoins one below name (c :: read) answer := by
            obtain ⟨read', summit', _, ascends', descends', passed⟩ := ih rest absent''
            obtain ⟨entered'', descends''⟩ := down descends'
            refine ⟨_, _, _, .super found fresh (foresees.fileOf_eq ▸ readable) next other ascends',
              descends'', fun e listed => ?_⟩
            rcases List.mem_cons.mp listed with rfl | listed
            · exact .inr List.mem_cons_self
            · exact (passed e listed).imp_right (List.mem_cons_of_mem c)
          cases descends with
          | blocked rest => exact extend rest fun rest => ⟨_, .blocked rest⟩
          | interface rest isInterface => exact extend rest fun rest => ⟨_, .interface rest isInterface⟩
          | enters rest isClass links => exact extend rest fun rest => ⟨_, .enters rest isClass links⟩

/-- A name comes to the same in a machine that is foreseen. -/
theorem answer_eq (foresees : base.Foresees one) {trail trail' : Trail}
    (along : trail.Of base name) (along' : trail'.Of one name) :
    trail'.answer = trail.answer ∧
      ∀ c ∈ trail.read, (one.findClass? c.name).isSome = true ∨ c ∈ trail'.read := by
  obtain ⟨read', summit', entered', ascends', descends', passed⟩ :=
    foresees.ascends along.ascends along.descends fun _ listed => absurd listed List.not_mem_nil
  have along'' : Trail.Of ⟨read', summit', entered', trail.answer⟩ one name := ⟨ascends', descends'⟩
  obtain ⟨read, -, -, answer⟩ := along''.determined along'
  exact ⟨answer, read ▸ passed⟩

/-! ### Loading in a machine that is foreseen -/

variable {trail : Trail}

/-- Loading a class leaves a machine that is foreseen. -/
theorem loading (foresees : base.Foresees one)
    (rooted : (base.findClass? rootClass).isSome = true) (along : trail.Of one name) :
    base.Foresees (loaded one trail.read trail.entered) := by
  have still {other : String} (known : (one.findClass? other).isSome = true) :
      ((loaded one trail.read trail.entered).findClass? other).isSome = true := by
    obtain ⟨d, found⟩ := Option.isSome_iff_exists.mp known
    rw [findClass?_loaded along found]
    rfl
  refine ⟨foresees.options, foresees.files, fun d known => List.mem_append_right _ (foresees.kept known),
    fun found => findClass?_loaded along (foresees.known found), fun {other d} found => ?_,
    fun d known => ?_⟩
  · rcases findClass?_loaded_cases found with old | ⟨member, rfl⟩
    · obtain ⟨trail', along', answer, passed⟩ := foresees.loads old
      exact ⟨trail', along', answer, fun k listed => still (passed k listed)⟩
    · obtain ⟨read', entered', ascends', descends', within⟩ :=
        along.descends.trail along.ascends name_of_fileOf member
      have part : Trail.Of ⟨read', trail.summit, entered', .ok d⟩ one d.name := ⟨ascends', descends'⟩
      obtain ⟨whole, along'⟩ := exists_trail rooted d.name
      obtain ⟨answer, passed⟩ := foresees.answer_eq along' part
      refine ⟨whole, along', answer.symm, fun k listed => ?_⟩
      rcases passed k listed with known | read
      · exact still known
      · -- what is read on the way to a class that is entered is entered as well
        have named : k.name ∈ entered'.map (·.name) := by
          rw [descends'.suffix.2 ⟨d, rfl⟩]
          exact List.mem_map_of_mem read
        obtain ⟨e, member', same⟩ := List.mem_map.mp named
        rw [← same, findClass?_entered along (within member')]
        rfl
  · rcases List.mem_append.mp known with new | old
    · exact .inr (findClass?_entered along new)
    · exact (foresees.named d old).imp_right (findClass?_loaded along)

/-- A name comes to the same class or obstacle in every machine that is foreseen, and loading it
leaves a machine that is foreseen again. -/
theorem ends_resolve (foresees : base.Foresees one)
    (rooted : (base.findClass? rootClass).isSome = true) (along : trail.Of base name) :
    (resolve name).Ends one
      (fun c later => trail.answer = .ok c ∧ base.Foresees later ∧ later.thread = one.thread ∧
        later.parked = one.parked)
      fun halt later => (∃ obstacle, trail.answer = .error obstacle ∧
        halt = .fault (obstacle.fault base.options.classpath)) ∧ base.Foresees later ∧
        later.thread = one.thread ∧ later.parked = one.parked := by
  obtain ⟨trail', along'⟩ := exists_trail (foresees.rooted rooted) name
  obtain ⟨answer, -⟩ := foresees.answer_eq along along'
  have later := foresees.loading rooted along'
  unfold Ends
  rw [resolve_of_trail along', Trail.outcome, answer, foresees.options]
  cases trail.answer with
  | ok c => exact ⟨rfl, later, rfl, rfl⟩
  | error obstacle => exact ⟨⟨obstacle, rfl, rfl⟩, later, rfl, rfl⟩

end Foresees

end Machine

end Jvm
