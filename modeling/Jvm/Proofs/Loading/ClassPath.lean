/-
# Jvm.Proofs.Loading.ClassPath — the class files that can be found under a name

Every name has at most one class file below the class path. `fileOf` is the class that is read from
it, or what is wrong with it (`Obstacle`). A file declares one class whatever name it is looked up
under, so different names have different files (`length_le_count`).
-/
import Jvm.Machine.Loading
import Jvm.Proofs.Class.Sourced
import Jvm.Proofs.ClassFile.PrefixFree
import Mathlib.Data.List.Nodup
import Mathlib.Data.List.Perm.Subperm

namespace Jvm

set_option autoImplicit false

open ClassFile.Reader (rootClass)

/-! ## What a file declares -/

namespace Class

/-- Only the root class of a file has no superclass. -/
theorem rooted_of_ofBytes {source : String} {bytes : List UInt8} {c : Class}
    (read : Class.ofBytes source bytes = .ok c) (bare : c.superName = none) : c.name = rootClass :=
  (ClassFile.Reader.declaredClass_ofBytes read).root bare

/-- What is read does not depend on where the bytes come from. -/
theorem eq_of_ofBytes {source source' : String} {bytes : List UInt8} {c d : Class}
    (one : Class.ofBytes source bytes = .ok c) (other : Class.ofBytes source' bytes = .ok d) :
    c = d := by
  have same : Class.ofBytes source bytes = .ok d := ofBytes_eq_ok.mpr (ofBytes_eq_ok.mp other)
  exact Except.ok.inj (one.symm.trans same)

/-- A class that was read can be linked to any superclass. -/
theorem exists_link {source : String} {bytes : List UInt8} {c : Class}
    (read : Class.ofBytes source bytes = .ok c) (id : ClassId) (super : Option LinkedClass) :
    ∃ linked, LinkedClass.link c id super = .ok linked := by
  have declared := ClassFile.Reader.declaredClass_ofBytes read
  have wellFormed : Layout.malformedField? c.fields = none := by
    refine List.find?_eq_none.mpr fun field listed => ?_
    rw [(declared.fields field listed).descriptor]
    decide
  unfold LinkedClass.link
  rw [wellFormed]
  exact ⟨_, rfl⟩

end Class

namespace Files

theorem mem_of_follow {files : Files} {here : Place} {segments : List String}
    {content : List UInt8} (found : files.follow here segments = some content) :
    content ∈ files.files.map File.content := by
  fun_induction follow files here segments with
  | case1 => cases found
  | case2 here name =>
      obtain ⟨file, listed, rfl⟩ := Option.map_eq_some_iff.mp found
      exact List.mem_map_of_mem (List.mem_of_find?_eq_some listed)
  | case3 here segment rest _ _ ih => exact ih found
  | case4 => cases found

theorem mem_of_read? {files : Files} {path : String} {content : List UInt8}
    (found : files.read? path = some content) : content ∈ files.files.map File.content := by
  unfold read? at found
  split at found
  · cases found
  · exact mem_of_follow (Option.filter_eq_some_iff.mp found).1

end Files

namespace Loading

/-! ## Obstacles -/

/-- What can stop loading. -/
inductive Obstacle where
  /-- There is no file of the name, or it is empty. -/
  | missing (name : String)
  | malformed (fault : Fault)
  | misnamed (name found : String)
  /-- A name that is already being loaded. -/
  | repeated (name : String)
  | ownSuper (name : String)
  | interface (name super : String)
  deriving DecidableEq, Repr

namespace Obstacle

def fault (classpath : String) : Obstacle → Fault
  | .missing name => .of (.classNotFound name classpath)
  | .malformed fault => fault
  | .misnamed name found => .of (.wrongName name found)
  | .repeated name => .of (.circularLoading name)
  | .ownSuper name => .of (.ownSuperclass name)
  | .interface name super => .of (.interfaceAsSuperclass name super)

/-- How a fault reports an obstacle: a file that is missing as a class that is not found, a name that
repeats as a circular reference, and anything else as malformed. -/
def Reports (fault : Fault) : Obstacle → Prop
  | .missing _ => fault.kind = .resolution ∧ fault.reason = some .classNotFound
  | .repeated _ | .ownSuper _ => fault.kind = .resolution ∧ fault.reason = some .circularReference
  | .malformed _ | .misnamed _ _ | .interface _ _ => fault.kind = .format

end Obstacle

/-- The class that is read under a name, or what is wrong with the file of the name. -/
def fileOf (machine : Machine) (name : String) : Except Obstacle Class :=
  let path := filePath machine.options.classpath name
  match machine.files.read? path with
  | none => .error (.missing name)
  | some content =>
      match Class.ofBytes path content with
      | .error fault => .error (.malformed fault)
      | .ok c => if c.name = name then .ok c else .error (.misnamed name c.name)

section FileOf

variable {machine : Machine} {name : String} {c : Class}

theorem fileOf_eq_ok :
    fileOf machine name = .ok c ↔
      ∃ content, machine.files.read? (filePath machine.options.classpath name) = some content ∧
        Class.ofBytes (filePath machine.options.classpath name) content = .ok c ∧ c.name = name := by
  unfold fileOf
  dsimp only
  constructor
  · intro found
    split at found
    · cases found
    · rename_i content there
      split at found
      · cases found
      · rename_i d read
        split at found
        · cases found
          exact ⟨content, there, read, ‹_›⟩
        · cases found
  · rintro ⟨content, there, read, named⟩
    simp only [there, read, named, if_true]

theorem name_of_fileOf (found : fileOf machine name = .ok c) : c.name = name := by
  obtain ⟨_, _, _, named⟩ := fileOf_eq_ok.mp found
  exact named

theorem reports_of_fileOf {obstacle : Obstacle} (stopped : fileOf machine name = .error obstacle)
    (classpath : String) : obstacle.Reports (obstacle.fault classpath) := by
  unfold fileOf at stopped
  dsimp only at stopped
  split at stopped
  · cases stopped
    exact ⟨rfl, rfl⟩
  · split at stopped
    · rename_i fault refused
      cases stopped
      exact Class.format_of_ofBytes refused
    · split at stopped
      · cases stopped
      · cases stopped
        rfl

/-- Different classes have different files. -/
theorem length_le_count {names : List String} (distinct : names.Nodup)
    (readable : ∀ name ∈ names, ∃ c, fileOf machine name = .ok c) :
    names.length ≤ machine.files.count := by
  let content (name : String) : List UInt8 :=
    (machine.files.read? (filePath machine.options.classpath name)).getD []
  have contents : ∀ name ∈ names, content name ∈ machine.files.files.map File.content ∧
      ∃ source c, Class.ofBytes source (content name) = .ok c ∧ c.name = name := by
    intro name listed
    obtain ⟨c, found⟩ := readable name listed
    obtain ⟨bytes, there, read, named⟩ := fileOf_eq_ok.mp found
    have same : content name = bytes := by simp only [content, there, Option.getD_some]
    rw [same]
    exact ⟨Files.mem_of_read? there, _, c, read, named⟩
  have apart : (names.map content).Nodup := by
    refine distinct.map_on fun first listed second listed' same => ?_
    obtain ⟨-, _, c, read, rfl⟩ := contents first listed
    obtain ⟨-, _, d, read', rfl⟩ := contents second listed'
    rw [← same] at read'
    rw [Class.eq_of_ofBytes read read']
  have within : names.map content ⊆ machine.files.files.map File.content := by
    intro bytes listed
    obtain ⟨name, member, rfl⟩ := List.mem_map.mp listed
    exact (contents name member).1
  have few := (apart.subperm within).length_le
  rwa [List.length_map, List.length_map] at few

end FileOf

end Loading

end Jvm
