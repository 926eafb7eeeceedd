/-
# Jvm.Proofs.Pool.Resolvable — what a checked pool stands for

In a checked pool references lead from members to classes and names, from these to texts, and no
further. So no reference leads back, and every constant can be resolved whose kind can be at all,
whatever has been resolved before (`Checked.answers`), and so can the members and class names by
which programs are run (`Checked.exists_member`, `Checked.exists_className`). Lookups that rely on
the checks find slots of the kinds that they need (`Checked.lookups`, `HasText.textAt`).
-/
import Jvm.Proofs.ClassFile.Declared
import Jvm.Proofs.Pool.Memory

namespace Jvm.Pool

set_option autoImplicit false

/-- The kinds of constants that can be resolved. -/
def Tag.isResolvable : Tag → Bool
  | .invalid | .methodHandle | .methodType | .dynamic | .invokeDynamic => false
  | _ => true

/-- How far the references of a kind of constant lead. -/
def Tag.level : Tag → Nat
  | .field | .method | .interfaceMethod => 2
  | .classRef | .string | .nameAndType => 1
  | _ => 0

namespace Entry

/-- References of what can be resolved lead down, to what can be resolved. -/
theorem references_lower {entry : Entry} (resolvable : entry.tag.isResolvable = true) {target : Int}
    {kind : Target} (refers : (target, kind) ∈ entry.references) :
    ∃ tag, kind = .entry tag ∧ tag.isResolvable = true ∧ tag.level < entry.tag.level := by
  cases entry with
  | classRef name | string text =>
      obtain ⟨rfl, rfl⟩ := Prod.mk.inj (List.mem_singleton.mp refers)
      exact ⟨.utf8, rfl, rfl, Nat.zero_lt_one⟩
  | nameAndType parts =>
      rcases List.mem_pair.mp refers with same | same <;> obtain ⟨rfl, rfl⟩ := Prod.mk.inj same
      · exact ⟨.utf8, rfl, rfl, Nat.zero_lt_one⟩
      · exact ⟨.utf8, rfl, rfl, Nat.zero_lt_one⟩
  | member found parts =>
      rcases List.mem_pair.mp refers with same | same <;> obtain ⟨rfl, rfl⟩ := Prod.mk.inj same
      · exact ⟨.classRef, rfl, rfl, by cases found <;> exact Nat.one_lt_two⟩
      · exact ⟨.nameAndType, rfl, rfl, by cases found <;> exact Nat.one_lt_two⟩
  | utf8 text | integer v | float bits | long v | double bits => cases refers
  | methodHandle parts | methodType descriptor | dynamic parts | invokeDynamic parts =>
      cases resolvable

/-- An entry stands for something if all that it refers to does. -/
theorem exists_expand {follow : Int → Tag → Except Fault Resolved} {entry : Entry}
    (resolvable : entry.tag.isResolvable = true)
    (follows : ∀ target tag, (target, .entry tag) ∈ entry.references →
      ∃ found, follow target tag = .ok found) (index : Int) :
    ∃ found, entry.expand follow index = .ok found := by
  cases entry with
  | classRef target | string target =>
      obtain ⟨text, followed⟩ := follows target .utf8 (List.mem_singleton_self _)
      simp only [expand, followed]
      exact ⟨_, rfl⟩
  | nameAndType parts =>
      obtain ⟨name, followed⟩ := follows parts.first .utf8 List.mem_cons_self
      obtain ⟨descriptor, followed'⟩ :=
        follows parts.second .utf8 (List.mem_cons_of_mem _ (List.mem_singleton_self _))
      simp only [expand, followed, followed']
      exact ⟨_, rfl⟩
  | member found parts =>
      obtain ⟨owner, followed⟩ := follows parts.first .classRef List.mem_cons_self
      obtain ⟨named, followed'⟩ :=
        follows parts.second .nameAndType (List.mem_cons_of_mem _ (List.mem_singleton_self _))
      simp only [expand, followed, followed']
      exact ⟨_, rfl⟩
  | utf8 text | integer v | float bits | long v | double bits => exact ⟨_, rfl⟩
  | methodHandle parts | methodType descriptor | dynamic parts | invokeDynamic parts =>
      cases resolvable

end Entry

variable {pool : Pool}

theorem visit_of_entryAt {path : List Nat} {index : Int} {entry : Entry}
    (within : pool.isWithin index = true) (here : pool.entryAt index.toNat = some entry)
    (outside : index.toNat ∉ path) : pool.visit path index = .ok entry := by
  unfold visit reach
  rw [if_neg (not_not_intro within), here]
  simp [outside]

/-- A slot that has no constant cannot be visited. -/
theorem visit_eq_error {index : Int}
    (empty : pool.isWithin index = true → pool.entryAt index.toNat = none) :
    ∃ fault, pool.visit [] index = .error fault ∧ fault.kind = .resolution ∧
      fault.reason = some .badIndex ∧ fault.poolIndex = index := by
  unfold visit reach
  cases within : pool.isWithin index with
  | false => exact ⟨_, rfl, rfl, rfl, rfl⟩
  | true =>
      simp only [empty within, not_true_eq_false, if_false]
      exact ⟨_, rfl, rfl, rfl, rfl⟩

/-- Below slots of higher kinds, what can be resolved is. -/
theorem Checked.exists_dereference (checked : pool.Checked) {path : List Nat} {index : Int}
    {entry : Entry} (within : pool.isWithin index = true)
    (here : pool.entryAt index.toNat = some entry) (resolvable : entry.tag.isResolvable = true)
    (above : ∀ slot ∈ path, ∀ other, pool.entryAt slot = some other →
      entry.tag.level < other.tag.level) {wanted : Wanted}
    (accepted : wanted.accepts entry.tag = true) :
    ∃ found, pool.dereference path index wanted = .ok found := by
  induction level : entry.tag.level using Nat.strongRecOn generalizing path index entry wanted with
  | ind level ih =>
      subst level
      -- the slots on the way hold constants of higher kinds, so this one is not among them
      have outside : index.toNat ∉ path := by
        intro member
        exact Nat.lt_irrefl _ (above index.toNat member entry here)
      rw [dereference_of_ok wanted (visit_of_entryAt within here outside), if_pos accepted]
      refine entry.exists_expand resolvable (fun target tag refers => ?_) index
      obtain ⟨within', other, there, accepts⟩ := checked.target here refers
      obtain rfl : tag = other.tag := eq_of_beq accepts
      obtain ⟨_, ⟨rfl⟩, resolvable', lower⟩ := entry.references_lower resolvable refers
      refine ih _ lower within' there resolvable' (fun slot member found holds => ?_)
        (beq_self_eq_true _) rfl
      rcases List.mem_cons.mp member with rfl | earlier
      · obtain rfl := Option.some.inj (here.symm.trans holds)
        exact lower
      · exact Nat.lt_trans lower (above slot earlier found holds)

theorem isWithin_of_entryAt (unused : pool.entryAt 0 = none) {index : Nat} {entry : Entry}
    (here : pool.entryAt index = some entry) : pool.isWithin index = true := by
  have positive : index ≠ 0 := by
    rintro rfl
    rw [unused] at here
    cases here
  obtain ⟨slot, found, -⟩ := Option.bind_eq_some_iff.mp here
  have below := (Array.getElem?_eq_some_iff.mp found).1
  unfold isWithin length
  simp only [Bool.and_eq_true, decide_eq_true_eq]
  omega

/-- With no slot under way, what can be resolved is. -/
theorem Checked.exists_dereference_nil (checked : pool.Checked) (unused : pool.entryAt 0 = none)
    {index : Nat} {entry : Entry} (here : pool.entryAt index = some entry)
    (resolvable : entry.tag.isResolvable = true) {wanted : Wanted}
    (accepted : wanted.accepts entry.tag = true) :
    ∃ found, pool.dereference [] index wanted = .ok found :=
  checked.exists_dereference (isWithin_of_entryAt unused here) here resolvable
    (fun _ member => absurd member List.not_mem_nil) accepted

/-- Whatever has been asked before, a constant whose kind can be resolved is, and is found whole. -/
theorem Checked.answers (checked : pool.Checked) (unused : pool.entryAt 0 = none) {index : Nat}
    {entry : Entry} (here : pool.entryAt index = some entry)
    (resolvable : entry.tag.isResolvable = true) (earlier : List Query) {wanted : Wanted}
    (accepted : wanted.accepts entry.tag = true) :
    ∃ found, pool.answerAfter earlier (.entry index wanted) = .ok (.entry found) ∧
      found.tag = entry.tag ∧ found.Whole pool := by
  obtain ⟨found, dereferenced⟩ := checked.exists_dereference_nil unused here resolvable accepted
  obtain ⟨tag, -, whole⟩ := whole_of_dereference dereferenced
  refine ⟨found, ?_, ?_, whole⟩
  · rw [answerAfter_eq_reference]
    unfold Query.reference Query.reading Query.wanted
    show (pool.dereference [] index wanted >>= fun found => pure (Answer.entry found)) = _
    rw [dereferenced]
    rfl
  · rw [tag, Int.toNat_natCast, tagAt, here]

theorem exists_of_map {α β : Type} {reading : Except Fault α} {view : α → β}
    (viewed : ∃ found, reading.map view = .ok found) : ∃ found, reading = .ok found := by
  obtain ⟨_, viewed⟩ := viewed
  cases reading with
  | ok found => exact ⟨found, rfl⟩
  | error fault => cases viewed

theorem Checked.exists_member (checked : pool.Checked) (unused : pool.entryAt 0 = none)
    {index : Nat} {kind : MemberKind} {parts : Pair}
    (here : pool.entryAt index = some (.member kind parts)) :
    ∃ ref, pool.memberAt kind [] index = .ok ref := by
  have resolvable : (Entry.member kind parts).tag.isResolvable = true := by cases kind <;> rfl
  have found : ∃ found, pool.dereference [] index (.tagged kind.tag) = .ok found :=
    checked.exists_dereference_nil unused here resolvable (beq_self_eq_true kind.tag)
  rw [dereference_member] at found
  exact exists_of_map found

theorem Checked.exists_className (checked : pool.Checked) (unused : pool.entryAt 0 = none)
    {index : Nat} {target : Int} (here : pool.entryAt index = some (.classRef target)) :
    ∃ name, pool.className index = .ok name := by
  have found : ∃ found, pool.dereference [] index (.tagged .classRef) = .ok found :=
    checked.exists_dereference_nil unused here rfl rfl
  rw [dereference_classRef] at found
  exact exists_of_map found

/-! ## Lookups that rely on the checks -/

theorem checkedTagAt_of_isWithin {index : Int} (within : pool.isWithin index = true) :
    pool.checkedTagAt index = .ok (pool.tagAt index.toNat) := by
  simp only [isWithin, Bool.and_eq_true, decide_eq_true_eq] at within
  unfold checkedTagAt
  rw [if_neg (by omega)]

theorem HasText.entryAt {text : PoolText} (has : pool.HasText text) :
    pool.isWithin text.index = true ∧ pool.entryAt text.index = some (.utf8 text.text) := by
  unfold HasText text? at has
  split at has
  · rename_i within
    obtain ⟨entry, here, content⟩ := Option.bind_eq_some_iff.mp has
    cases entry with
    | utf8 found =>
        obtain rfl := Option.some.inj content
        exact ⟨within, here⟩
    | _ => cases content
  · cases has

theorem HasText.textAt {text : PoolText} (has : pool.HasText text) :
    pool.textAt text.index = .ok text.text := by
  unfold Pool.textAt
  rw [has.entryAt.2]
  rfl

/-- A reference leads to a slot whose tag can be looked up, and whose text can if it is a text. -/
theorem Checked.lookups (checked : pool.Checked) {index : Nat} {entry : Entry}
    (here : pool.entryAt index = some entry) {target : Int} {kind : Target}
    (refers : (target, kind) ∈ entry.references) :
    ∃ tag, pool.checkedTagAt target = .ok tag ∧ kind.accepts tag = true ∧
      (tag = .utf8 → ∃ text, pool.textAt target.toNat = .ok text) := by
  obtain ⟨within, found, there, accepted⟩ := checked.target here refers
  refine ⟨found.tag, ?_, accepted, fun isText => ?_⟩
  · rw [checkedTagAt_of_isWithin within, tagAt, there]
  · obtain ⟨text, rfl⟩ := exists_utf8 isText
    refine ⟨text, ?_⟩
    unfold Pool.textAt
    rw [there]
    rfl

end Jvm.Pool
