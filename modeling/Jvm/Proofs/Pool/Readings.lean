/-
# Jvm.Proofs.Pool.Readings — reading a pool without its memory

Programs are run by readings that remember nothing (`Pool.className`, `Pool.field` and their
siblings). Whatever has been asked of a pool before, its memory answers as these readings do
(`Pool.transparent`). So what has been resolved so far, and for whom, makes no difference.
-/
import Jvm.Proofs.Pool.Memory

namespace Jvm.Pool

set_option autoImplicit false

def Member.resolved (kind : MemberKind) (found : Member) : Resolved :=
  { Resolved.blank kind.tag with
    owner := some found.owner, name := some found.name, descriptor := some found.descriptor }

/-- The kind of member that a method reference is read as. -/
def methodKind (pool : Pool) (index : Int) : MemberKind :=
  if pool.isWithin index ∧ pool.tagAt index.toNat = .interfaceMethod then .interfaceMethod
  else .method

/-- The constant that an entry stands for. -/
def Resolved.constant (found : Resolved) : Loadable :=
  match found.text with
  | some text => .string text
  | none => .value found.value

/-- The constant that is answered, if it is one. -/
def Answer.constant? : Answer → Option Loadable
  | .entry found => some found.constant
  | .text _ => none

/-- Whatever has been asked before, the memory of the pool answers as the pool is read. -/
structure Transparent (pool : Pool) : Prop where
  className : ∀ (earlier : List Query) (index : Int),
    pool.answerAfter earlier (.classRef index) = (pool.className index).map fun name =>
      .entry { Resolved.blank .classRef with owner := some name }
  field : ∀ (earlier : List Query) (index : Int),
    pool.answerAfter earlier (.field index) = (pool.field index).map fun found =>
      .entry (found.resolved .field)
  method : ∀ (earlier : List Query) (index : Int),
    pool.answerAfter earlier (.method index) = (pool.method index).map fun found =>
      .entry (found.resolved (pool.methodKind index))
  interfaceMethod : ∀ (earlier : List Query) (index : Int),
    pool.answerAfter earlier (.interfaceMethod index) = (pool.interfaceMethod index).map fun found =>
      .entry (found.resolved .interfaceMethod)
  loadable : ∀ (earlier : List Query) (index : Int) (wide : Bool),
    (pool.answerAfter earlier (.loadable index wide)).map Answer.constant? =
      (pool.loadable index wide).map some

section

variable {pool : Pool}

/-- The answer to a question about a slot is what the slot stands for. -/
theorem Query.reference_of_wanted {query : Query} {index : Int} {wanted : Wanted}
    (wants : query.wanted pool = .ok (index, wanted)) :
    query.reference pool = (pool.dereference [] index wanted).map query.view := by
  unfold reference reading
  rw [wants]
  rfl

theorem reference_member (query : Query) (kind : MemberKind) (index : Int)
    (wants : query.wanted pool = .ok (index, .tagged kind.tag))
    (views : ∀ found, query.view found = .entry found) :
    query.reference pool = (pool.memberAt kind [] index).map fun found =>
      .entry (found.resolved kind) := by
  rw [Query.reference_of_wanted wants, dereference_member]
  cases pool.memberAt kind [] index with
  | error fault => rfl
  | ok found => exact congrArg Except.ok (views _)

theorem method_eq_memberAt (index : Int) :
    pool.method index = pool.memberAt (pool.methodKind index) [] index := by
  unfold method methodKind
  split <;> rfl

theorem wanted_method (index : Int) :
    (Query.method index).wanted pool = .ok (index, .tagged (pool.methodKind index).tag) := by
  unfold Query.wanted methodKind
  dsimp only
  split <;> rfl

/-- A constant that fits the width is wanted as what it is, and any other is refused. -/
theorem wanted_loadable {index : Int} {entry : Entry} (visited : pool.visit [] index = .ok entry)
    (wide : Bool) :
    (Query.loadable index wide).wanted pool =
      if (if wide then entry.tag.isWide else entry.tag.isLoadable) then
        .ok (index, .tagged entry.tag)
      else .error (refuseLoad index.toNat entry.tag wide) := by
  unfold Query.wanted
  dsimp only
  rw [visited]
  rfl

/-- What a constant stands for that can be loaded. -/
theorem constant_of_expand {index : Int} {entry : Entry} {wide : Bool}
    (visited : pool.visit [] index = .ok entry)
    (fits : (if wide then entry.tag.isWide else entry.tag.isLoadable) = true) :
    (pool.dereference [] index (.tagged entry.tag)).map Resolved.constant =
      pool.loadable index wide := by
  unfold loadable
  rw [dereference_of_ok _ visited, visited]
  cases entry with
  | string text =>
      cases wide with
      | true => cases fits
      | false =>
          simp only [Entry.tag, Wanted.accepts, beq_self_eq_true, if_true, Entry.expand,
            dereference_utf8]
          cases pool.utf8At [index.toNat] text <;> rfl
  | integer | float | long | double => cases wide <;> first | rfl | cases fits
  | member kind parts => cases kind <;> cases wide <;> cases fits
  | _ => cases wide <;> cases fits

theorem reference_loadable (index : Int) (wide : Bool) :
    ((Query.loadable index wide).reference pool).map Answer.constant? =
      (pool.loadable index wide).map some := by
  cases visited : pool.visit [] index with
  | error fault =>
      have refused : (Query.loadable index wide).wanted pool = .error fault := by
        unfold Query.wanted
        dsimp only
        rw [visited]
        rfl
      unfold Query.reference Query.reading loadable
      rw [refused, visited]
      rfl
  | ok entry =>
      have wants := wanted_loadable visited wide
      by_cases fits : (if wide then entry.tag.isWide else entry.tag.isLoadable) = true
      · rw [if_pos fits] at wants
        rw [Query.reference_of_wanted wants, ← constant_of_expand visited fits]
        cases pool.dereference [] index (.tagged entry.tag) <;> rfl
      · rw [if_neg fits] at wants
        unfold Query.reference Query.reading loadable
        rw [wants, visited]
        cases entry with
        | member kind parts => cases kind <;> cases wide <;> rfl
        | _ => cases wide <;> first | rfl | exact absurd rfl fits

theorem transparent (pool : Pool) : pool.Transparent where
  className earlier index := by
    rw [answerAfter_eq_reference, Query.reference_of_wanted rfl, dereference_classRef]
    unfold className
    cases pool.classAt [] index <;> rfl
  field earlier index := by
    rw [answerAfter_eq_reference, reference_member _ .field index rfl fun _ => rfl]
    rfl
  method earlier index := by
    rw [answerAfter_eq_reference, reference_member _ _ index (wanted_method index) fun _ => rfl,
      method_eq_memberAt]
  interfaceMethod earlier index := by
    rw [answerAfter_eq_reference, reference_member _ .interfaceMethod index rfl fun _ => rfl]
    rfl
  loadable earlier index wide := by
    rw [answerAfter_eq_reference, reference_loadable]

end

end Jvm.Pool
