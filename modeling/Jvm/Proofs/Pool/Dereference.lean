/-
# Jvm.Proofs.Pool.Dereference — following references without a memory

`dereference` says what a slot stands for by reading the pool alone. It follows the references
of an entry in their order, each to the kind of entry it needs, and carries the slots it came
through, so that a reference back to one of them is a circular one. Each slot it enters is new
to the path, and the pool has finitely many, so it ends on every pool, checked or not
(`unvisited_lt`).

`dereference_member` and its siblings: the readings of one kind of entry, by which programs are
run, find the same. `whole_of_dereference`: what is found has the texts or the number that its
kind calls for and nothing else, and each of its texts is the content of a text constant.
-/
import Mathlib.Data.List.Basic
import Jvm.Pool.Memo

namespace Jvm.Pool

set_option autoImplicit false

theorem reach_eq_ok {pool : Pool} {underWay : Nat → Bool} {index : Int} {entry : Entry}
    (reached : pool.reach underWay index = .ok entry) :
    pool.isWithin index = true ∧ pool.entryAt index.toNat = some entry ∧
      underWay index.toNat = false := by
  unfold reach at reached
  split at reached
  · cases reached
  · rename_i within
    cases here : pool.entryAt index.toNat with
    | none => simp [here] at reached
    | some found =>
        simp only [here] at reached
        split at reached
        · cases reached
        · rename_i free
          cases reached
          exact ⟨by simpa using within, rfl, by simpa using free⟩

/-- Which entry is met, and which fault, depends on that one slot being under way only. -/
theorem reach_congr (pool : Pool) {underWay underWay' : Nat → Bool} {index : Int}
    (same : underWay index.toNat = underWay' index.toNat) :
    pool.reach underWay index = pool.reach underWay' index := by
  simp only [reach, same]

theorem visit_eq_ok {pool : Pool} {path : List Nat} {index : Int} {entry : Entry}
    (visited : pool.visit path index = .ok entry) :
    pool.isWithin index = true ∧ pool.entryAt index.toNat = some entry ∧ index.toNat ∉ path := by
  obtain ⟨within, here, free⟩ := reach_eq_ok visited
  exact ⟨within, here, by simpa using free⟩

theorem toNat_lt_length {pool : Pool} {index : Int} (within : pool.isWithin index = true) :
    index.toNat < pool.length := by
  simp only [isWithin, Bool.and_eq_true, decide_eq_true_eq] at within
  omega

/-- How many slots of the pool are not on the path. -/
def unvisited (pool : Pool) (path : List Nat) : Nat :=
  ((List.range pool.length).filter (· ∉ path)).length

theorem unvisited_lt {pool : Pool} {path : List Nat} {index : Int} {entry : Entry}
    (visited : pool.visit path index = .ok entry) :
    pool.unvisited (index.toNat :: path) < pool.unvisited path := by
  obtain ⟨within, -, fresh⟩ := visit_eq_ok visited
  have fewer : List.Sublist ((List.range pool.length).filter (· ∉ index.toNat :: path))
      ((List.range pool.length).filter (· ∉ path)) := by
    apply List.monotone_filter_right
    intro slot outside
    simp only [List.mem_cons, not_or, decide_eq_true_eq] at outside ⊢
    exact outside.2
  refine Nat.lt_of_le_of_ne fewer.length_le fun same => ?_
  have counted : index.toNat ∈ (List.range pool.length).filter (· ∉ path) := by
    simp [toNat_lt_length within, fresh]
  rw [← fewer.eq_of_length same] at counted
  simp at counted

/-- What an entry stands for, given what a reference to a kind of entry stands for. -/
def Entry.expand (follow : Int → Tag → Except Fault Resolved) (index : Int) :
    Entry → Except Fault Resolved
  | .utf8 text => return { Resolved.blank .utf8 with text := some text }
  | .integer v => return .ofValue .integer (.int v)
  | .float bits => return .ofValue .float (.float bits)
  | .long v => return .ofValue .long (.long v)
  | .double bits => return .ofValue .double (.double bits)
  | .classRef name => do
      let name ← follow name .utf8
      return { Resolved.blank .classRef with owner := name.text }
  | .string text => do
      let text ← follow text .utf8
      return { Resolved.blank .string with text := text.text }
  | .nameAndType parts => do
      let name ← follow parts.first .utf8
      let descriptor ← follow parts.second .utf8
      return { Resolved.blank .nameAndType with name := name.text, descriptor := descriptor.text }
  | .member kind parts => do
      let owner ← follow parts.first .classRef
      let found ← follow parts.second .nameAndType
      return { Resolved.blank kind.tag with
        owner := owner.owner, name := found.name, descriptor := found.descriptor }
  | entry => throw (unsupported index entry.tag)

/-- What a slot of the wanted kind stands for. -/
def dereference (pool : Pool) (path : List Nat) (index : Int) (wanted : Wanted) :
    Except Fault Resolved :=
  match _here : pool.visit path index with
  | .error fault => .error fault
  | .ok entry =>
      if wanted.accepts entry.tag then
        entry.expand (fun target tag =>
          pool.dereference (index.toNat :: path) target (.tagged tag)) index
      else .error (faultAt (.entryKind wanted index.toNat entry.tag) index)
termination_by pool.unvisited path
decreasing_by exact unvisited_lt _here

theorem dereference_of_error {pool : Pool} {path : List Nat} {index : Int} {fault : Fault}
    (wanted : Wanted) (visited : pool.visit path index = .error fault) :
    pool.dereference path index wanted = .error fault := by
  rw [dereference]
  split <;> rename_i found <;> rw [visited] at found <;> cases found
  rfl

theorem dereference_of_ok {pool : Pool} {path : List Nat} {index : Int} {entry : Entry}
    (wanted : Wanted) (visited : pool.visit path index = .ok entry) :
    pool.dereference path index wanted =
      if wanted.accepts entry.tag then
        entry.expand (fun target tag =>
          pool.dereference (index.toNat :: path) target (.tagged tag)) index
      else .error (faultAt (.entryKind wanted index.toNat entry.tag) index) := by
  rw [dereference]
  split <;> rename_i found <;> rw [visited] at found <;> cases found
  rfl

/-! ## Reading one kind of entry

The readings with a type of their own find the same parts and the same faults.
-/

section

variable (pool : Pool) (path : List Nat) (index : Int)

theorem dereference_utf8 :
    pool.dereference path index (.tagged .utf8) =
      (pool.utf8At path index).map fun text => { Resolved.blank .utf8 with text := some text } := by
  unfold utf8At select
  cases visited : pool.visit path index with
  | error fault => exact dereference_of_error _ visited
  | ok entry =>
      rw [dereference_of_ok _ visited]
      cases entry with
      | member kind parts => cases kind <;> rfl
      | _ => rfl

theorem dereference_classRef :
    pool.dereference path index (.tagged .classRef) =
      (pool.classAt path index).map fun name =>
        { Resolved.blank .classRef with owner := some name } := by
  unfold classAt select
  cases visited : pool.visit path index with
  | error fault => exact dereference_of_error _ visited
  | ok entry =>
      rw [dereference_of_ok _ visited]
      cases entry with
      | classRef name =>
          simp only [Entry.expand, Entry.className?, dereference_utf8]
          cases pool.utf8At (index.toNat :: path) name <;> rfl
      | member kind parts => cases kind <;> rfl
      | _ => rfl

theorem dereference_nameAndType :
    pool.dereference path index (.tagged .nameAndType) =
      (pool.nameAndTypeAt path index).map fun found =>
        { Resolved.blank .nameAndType with
          name := some found.name, descriptor := some found.descriptor } := by
  unfold nameAndTypeAt select
  cases visited : pool.visit path index with
  | error fault => exact dereference_of_error _ visited
  | ok entry =>
      rw [dereference_of_ok _ visited]
      cases entry with
      | nameAndType parts =>
          simp only [Entry.expand, Entry.nameAndType?, dereference_utf8]
          cases pool.utf8At (index.toNat :: path) parts.first with
          | error fault => rfl
          | ok name => cases pool.utf8At (index.toNat :: path) parts.second <;> rfl
      | member kind parts => cases kind <;> rfl
      | _ => rfl

theorem dereference_member (kind : MemberKind) :
    pool.dereference path index (.tagged kind.tag) =
      (pool.memberAt kind path index).map fun found =>
        { Resolved.blank kind.tag with
          owner := some found.owner, name := some found.name,
          descriptor := some found.descriptor } := by
  unfold memberAt select
  cases visited : pool.visit path index with
  | error fault => exact dereference_of_error _ visited
  | ok entry =>
      rw [dereference_of_ok _ visited]
      cases entry with
      | member found parts =>
          by_cases same : found = kind
          · subst same
            simp only [Entry.expand, Entry.member?, if_true, dereference_classRef,
              dereference_nameAndType]
            cases pool.classAt (index.toNat :: path) parts.first with
            | error fault => cases found <;> rfl
            | ok owner =>
                cases pool.nameAndTypeAt (index.toNat :: path) parts.second <;> cases found <;> rfl
          · cases found <;> cases kind <;> first | exact absurd rfl same | rfl
      | _ => cases kind <;> rfl

end

/-! ## What is found is whole -/

/-- The texts of an entry: holder, name, descriptor and content. -/
def Resolved.texts (found : Resolved) : List (Option String) :=
  [found.owner, found.name, found.descriptor, found.text]

/-- Which of these texts an entry of the kind has. -/
def Tag.hasTexts : Tag → List Bool
  | .utf8 | .string => [false, false, false, true]
  | .classRef => [true, false, false, false]
  | .nameAndType => [false, true, true, false]
  | .field | .method | .interfaceMethod => [true, true, true, false]
  | _ => [false, false, false, false]

/-- The type of the number that an entry of the kind holds. -/
def Tag.numberType : Tag → BasicType
  | .integer => .int
  | .float => .float
  | .long => .long
  | .double => .double
  | _ => .illegal

/-- The entry has the parts that its kind calls for and no other, and each of its texts is the
content of a text constant of the pool. -/
structure Resolved.Whole (pool : Pool) (found : Resolved) : Prop where
  parts : found.texts.map Option.isSome = found.tag.hasTexts
  number : found.value.type = found.tag.numberType
  texts : ∀ text, some text ∈ found.texts → ∃ slot, pool.entryAt slot = some (.utf8 text)

/-- Where the kind of an entry calls for a text, the entry has one, and a text constant spells it. -/
theorem Resolved.Whole.exists_text {pool : Pool} {found : Resolved} (whole : found.Whole pool)
    (place : Nat) (called : found.tag.hasTexts[place]? = some true) :
    ∃ text slot, found.texts[place]? = some (some text) ∧
      pool.entryAt slot = some (.utf8 text) := by
  rw [← whole.parts, List.getElem?_map, Option.map_eq_some_iff] at called
  obtain ⟨given, here, isSome⟩ := called
  obtain ⟨text, rfl⟩ := Option.isSome_iff_exists.mp isSome
  obtain ⟨slot, spelled⟩ := whole.texts text (List.mem_of_getElem? here)
  exact ⟨text, slot, here, spelled⟩

theorem Resolved.Whole.text_of_utf8 {pool : Pool} {found : Resolved} (whole : found.Whole pool)
    (isText : found.tag = .utf8) :
    ∃ text slot, found.text = some text ∧ pool.entryAt slot = some (.utf8 text) := by
  obtain ⟨text, slot, given, spelled⟩ := whole.exists_text 3 (by rw [isText]; rfl)
  exact ⟨text, slot, Option.some.inj given, spelled⟩

theorem of_bind_eq_ok {α β : Type} {first : Except Fault α} {next : α → Except Fault β} {result : β}
    (found : (first >>= next) = .ok result) :
    ∃ middle, first = .ok middle ∧ next middle = .ok result := by
  cases first with
  | error fault => cases found
  | ok middle => exact ⟨middle, rfl, found⟩

section

variable {pool : Pool} {follow : Int → Tag → Except Fault Resolved} {target : Int}
  {found : Resolved}

/-- What is followed is of the kind that it is followed to, and whole. -/
def Follows (pool : Pool) (follow : Int → Tag → Except Fault Resolved) : Prop :=
  ∀ target tag found, follow target tag = .ok found → found.tag = tag ∧ found.Whole pool

theorem Follows.text (sound : pool.Follows follow) (followed : follow target .utf8 = .ok found) :
    ∃ text slot, found.text = some text ∧ pool.entryAt slot = some (.utf8 text) := by
  obtain ⟨isText, whole⟩ := sound _ _ _ followed
  exact whole.text_of_utf8 isText

theorem Follows.owner (sound : pool.Follows follow)
    (followed : follow target .classRef = .ok found) :
    ∃ owner slot, found.owner = some owner ∧ pool.entryAt slot = some (.utf8 owner) := by
  obtain ⟨isClass, whole⟩ := sound _ _ _ followed
  obtain ⟨owner, slot, given, spelled⟩ := whole.exists_text 0 (by rw [isClass]; rfl)
  exact ⟨owner, slot, Option.some.inj given, spelled⟩

theorem Follows.nameAndType (sound : pool.Follows follow)
    (followed : follow target .nameAndType = .ok found) :
    (∃ name slot, found.name = some name ∧ pool.entryAt slot = some (.utf8 name)) ∧
      ∃ descriptor slot, found.descriptor = some descriptor ∧
        pool.entryAt slot = some (.utf8 descriptor) := by
  obtain ⟨isPair, whole⟩ := sound _ _ _ followed
  obtain ⟨name, slot, given, spelled⟩ := whole.exists_text 1 (by rw [isPair]; rfl)
  obtain ⟨descriptor, slot', given', spelled'⟩ := whole.exists_text 2 (by rw [isPair]; rfl)
  exact ⟨⟨name, slot, Option.some.inj given, spelled⟩,
    descriptor, slot', Option.some.inj given', spelled'⟩

/-- An entry that is composed of whole ones is whole. -/
theorem Entry.whole_of_expand (sound : pool.Follows follow) {index : Int} {entry : Entry}
    {slot : Nat} (here : pool.entryAt slot = some entry)
    (expanded : entry.expand follow index = .ok found) :
    found.tag = entry.tag ∧ found.Whole pool := by
  cases entry with
  | utf8 text =>
      cases expanded
      refine ⟨rfl, rfl, rfl, ?_⟩
      simpa [Resolved.texts, Resolved.blank] using ⟨slot, here⟩
  | integer v | float bits | long v | double bits =>
      cases expanded
      exact ⟨rfl, rfl, rfl, by simp [Resolved.texts, Resolved.blank, Resolved.ofValue]⟩
  | classRef name =>
      obtain ⟨target, followed, composed⟩ := of_bind_eq_ok expanded
      obtain ⟨text, slot, given, spelled⟩ := sound.text followed
      rw [given] at composed
      cases composed
      refine ⟨rfl, rfl, rfl, ?_⟩
      simpa [Resolved.texts, Resolved.blank] using ⟨slot, spelled⟩
  | string text =>
      obtain ⟨target, followed, composed⟩ := of_bind_eq_ok expanded
      obtain ⟨text, slot, given, spelled⟩ := sound.text followed
      rw [given] at composed
      cases composed
      refine ⟨rfl, rfl, rfl, ?_⟩
      simpa [Resolved.texts, Resolved.blank] using ⟨slot, spelled⟩
  | nameAndType parts =>
      obtain ⟨first, followed, rest⟩ := of_bind_eq_ok expanded
      obtain ⟨second, followed', composed⟩ := of_bind_eq_ok rest
      obtain ⟨name, slot, given, spelled⟩ := sound.text followed
      obtain ⟨descriptor, slot', given', spelled'⟩ := sound.text followed'
      rw [given, given'] at composed
      cases composed
      refine ⟨rfl, rfl, rfl, ?_⟩
      simpa [Resolved.texts, Resolved.blank] using ⟨⟨slot, spelled⟩, slot', spelled'⟩
  | member kind parts =>
      obtain ⟨first, followed, rest⟩ := of_bind_eq_ok expanded
      obtain ⟨second, followed', composed⟩ := of_bind_eq_ok rest
      obtain ⟨owner, slot, given, spelled⟩ := sound.owner followed
      obtain ⟨⟨name, slot', given', spelled'⟩, descriptor, slot'', given'', spelled''⟩ :=
        sound.nameAndType followed'
      rw [given, given', given''] at composed
      cases composed
      refine ⟨rfl, by cases kind <;> rfl, by cases kind <;> rfl, ?_⟩
      simpa [Resolved.texts, Resolved.blank] using
        ⟨⟨slot, spelled⟩, ⟨slot', spelled'⟩, slot'', spelled''⟩
  | methodHandle parts => cases expanded
  | methodType descriptor => cases expanded
  | dynamic parts => cases expanded
  | invokeDynamic parts => cases expanded

end

/-- What is found has the tag of its slot, which is of the wanted kind, and is whole. -/
theorem whole_of_dereference {pool : Pool} {path : List Nat} {index : Int} {wanted : Wanted}
    {found : Resolved} (dereferenced : pool.dereference path index wanted = .ok found) :
    found.tag = pool.tagAt index.toNat ∧ wanted.accepts found.tag ∧ found.Whole pool := by
  induction path, index, wanted using dereference.induct pool generalizing found with
  | case1 path index wanted fault visited =>
      rw [dereference_of_error wanted visited] at dereferenced
      cases dereferenced
  | case2 path index wanted entry visited accepted ih =>
      rw [dereference_of_ok wanted visited, if_pos accepted] at dereferenced
      obtain ⟨-, here, -⟩ := visit_eq_ok visited
      obtain ⟨tagged, whole⟩ := Entry.whole_of_expand (fun target tag found followed => by
        obtain ⟨-, accepts, whole⟩ := ih target tag followed
        exact ⟨(eq_of_beq accepts).symm, whole⟩) here dereferenced
      exact ⟨by simp [tagAt, here, tagged], by rwa [tagged], whole⟩
  | case3 path index wanted entry visited refused =>
      rw [dereference_of_ok wanted visited, if_neg refused] at dereferenced
      cases dereferenced

end Jvm.Pool
