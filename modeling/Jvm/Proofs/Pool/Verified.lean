/-
# Jvm.Proofs.Pool.Verified — what verifying says of a pool that was written

`Pool.verify` promises that no reference leads outside the pool, to the upper half of a two-slot
constant or to a constant of another kind. It walks over the slots and passes over the one after a
two-slot constant unseen (`Pool.passesOver`); of all others it says the truth
(`tellsFirst_verifyFrom`). Writes can put a constant into an upper half, and what is there is then
used although nobody looked at it. So a pool that passed keeps the promise exactly if its upper
halves are empty (`Clear`, `verified_safe_iff_clear`). They are so in a new pool
(`clear_of_allocate`), and writes keep them so that stay off them (`Clear.put`).
-/
import Jvm.Proofs.ClassFile.Pools
import Jvm.Proofs.Pool.Resolvable

namespace Jvm.Pool

set_option autoImplicit false

variable {pool later : Pool}

/-! ## Pools that were written -/

/-- The pools of a length that writes make of a new one. -/
inductive Written (length : Int) : Pool → Prop
  | allocated {pool : Pool} (made : allocate length = .ok pool) : Written length pool
  | put {pool later : Pool} {index : Nat} {entry : Entry} (written : Written length pool)
      (within : pool.isWithin index = true) (made : pool.put index entry = .ok later) :
      Written length later

theorem isWithin_iff {index : Nat} :
    pool.isWithin index = true ↔ 1 ≤ index ∧ index < pool.length := by
  unfold isWithin
  simp only [Bool.and_eq_true, decide_eq_true_eq]
  omega

@[simp] theorem length_set (index : Nat) (slot : Option Entry) :
    (pool.set index slot).length = pool.length :=
  Array.size_setIfInBounds

theorem entryAt_set {index other : Nat} {slot : Option Entry} (inside : index < pool.length) :
    (pool.set index slot).entryAt other = if other = index then slot else pool.entryAt other := by
  unfold entryAt set
  unfold length at inside
  simp only [Array.getElem?_setIfInBounds, inside, eq_comm (a := index)]
  split <;> rfl

/-- What a write leaves in each slot. -/
theorem put_eq_ok {index : Nat} {entry : Entry} (inside : index < pool.length) :
    pool.put index entry = .ok later → later.length = pool.length ∧
      (entry.isWide = true → index + 1 < pool.length) ∧
      ∀ other, later.entryAt other =
        if other = index then some entry
        else if other = index + 1 ∧ entry.isWide = true then none
        else pool.entryAt other := by
  intro made
  unfold put at made
  split at made
  · rename_i wide
    split at made
    · rename_i next
      cases made
      refine ⟨by rw [length_set, length_set], fun _ => next, fun other => ?_⟩
      rw [entryAt_set (by rwa [length_set]), entryAt_set inside]
      by_cases above : other = index + 1
      · rw [if_pos above, if_neg (by omega), if_pos ⟨above, wide⟩]
      · rw [if_neg above, if_neg (c := other = index + 1 ∧ _) fun both => above both.1]
    · cases made
  · rename_i narrow
    cases made
    refine ⟨length_set _ _, fun wide => absurd wide narrow, fun other => ?_⟩
    rw [entryAt_set inside, if_neg (c := other = index + 1 ∧ _) fun both => narrow both.2]

/-- What writes keep: the first slot stays empty, and every two-slot constant has two slots. -/
structure Formed (pool : Pool) : Prop where
  unused : pool.entryAt 0 = none
  upper : ∀ index entry, pool.entryAt index = some entry → entry.isWide = true →
    index + 1 < pool.length

theorem entryAt_of_allocate {length : Int} (made : allocate length = .ok pool) (index : Nat) :
    pool.entryAt index = none := by
  unfold allocate at made
  split at made
  · cases made
  · cases made
    unfold entryAt
    simp only [Array.getElem?_replicate]
    split <;> rfl

theorem Written.formed {length : Int} (written : Written length pool) : pool.Formed := by
  induction written with
  | allocated made =>
      refine ⟨entryAt_of_allocate made 0, fun index entry here => ?_⟩
      rw [entryAt_of_allocate made] at here
      cases here
  | put written within made ih =>
      obtain ⟨positive, inside⟩ := isWithin_iff.mp within
      obtain ⟨same, room, entries⟩ := put_eq_ok inside made
      constructor
      · rw [entries, if_neg (by omega), if_neg (by omega)]
        exact ih.unused
      · intro other found here wide
        rw [entries] at here
        rw [same]
        split at here
        · rename_i there
          cases here
          rw [there]
          exact room wide
        · split at here
          · cases here
          · exact ih.upper other found here wide

/-! ## Upper halves -/

/-- No constant is in the slot after a two-slot constant. -/
def Clear (pool : Pool) : Prop := ∀ index, pool.IsUpperHalf index → pool.entryAt index = none

theorem clear_of_allocate {length : Int} (made : allocate length = .ok pool) : pool.Clear :=
  fun index _ => entryAt_of_allocate made index

/-- A write beside the upper halves leaves them empty. -/
theorem Clear.put {index : Nat} {entry : Entry} (clear : pool.Clear) (inside : index < pool.length)
    (beside : ¬ pool.IsUpperHalf index) (made : pool.put index entry = .ok later) :
    later.Clear := by
  obtain ⟨-, -, entries⟩ := put_eq_ok inside made
  rintro _ ⟨lower, found, rfl, here, wide⟩
  rw [entries] at here
  rw [entries]
  by_cases written : lower = index
  · -- the upper half of the constant that was written
    rw [if_pos written] at here
    cases here
    rw [if_neg (by omega), if_pos ⟨by omega, wide⟩]
  · rw [if_neg written] at here
    split at here
    · cases here
    · -- the upper half of a constant that was there before
      have half : pool.IsUpperHalf (lower + 1) := ⟨lower, found, rfl, here, wide⟩
      rw [if_neg fun same : lower + 1 = index => beside (same ▸ half)]
      split
      · rfl
      · exact clear _ half

/-! ## The walk over the slots -/

/-- The reference leads to a constant in the pool of the kind that it needs. -/
def Leads (pool : Pool) (target : Int) (kind : Target) : Prop :=
  pool.isWithin target = true ∧
    ∃ found, pool.entryAt target.toNat = some found ∧ kind.accepts found.tag = true

/-- The slot has a constant, and all its references lead somewhere. -/
def Sound (pool : Pool) (index : Nat) : Prop :=
  ∃ entry, pool.entryAt index = some entry ∧
    ∀ target kind, (target, kind) ∈ entry.references → pool.Leads target kind

/-- Whether the walk passes over a slot unseen: it does if the slot before was seen and has a
two-slot constant. -/
def passesOver (pool : Pool) : Nat → Bool
  | 0 => false
  | index + 1 => !pool.passesOver index && (pool.entryAt index).any Entry.isWide

/-- The slot is seen and not sound. -/
def Fails (pool : Pool) (index : Nat) : Prop := pool.passesOver index = false ∧ ¬ pool.Sound index

/-- The outcome says whether a slot from `start` on has the property, and tells the first one. -/
def TellsFirst (pool : Pool) (P : Nat → Prop) (start : Nat) : Except Fault Unit → Prop
  | .ok _ => ∀ index : Nat, start ≤ index → index < pool.length → ¬ P index
  | .error fault => ∃ index : Nat, fault.kind = .format ∧ fault.poolIndex = index ∧
      start ≤ index ∧ index < pool.length ∧ P index ∧
      ∀ earlier : Nat, start ≤ earlier → earlier < index → ¬ P earlier

theorem TellsFirst.before {P : Nat → Prop} {start : Nat} {outcome : Except Fault Unit}
    (tells : pool.TellsFirst P (start + 1) outcome) (fine : ¬ P start) :
    pool.TellsFirst P start outcome := by
  have extend : ∀ {index : Nat}, start ≤ index → (start + 1 ≤ index → ¬ P index) → ¬ P index := by
    intro index above others
    rcases Nat.eq_or_lt_of_le above with rfl | later
    · exact fine
    · exact others later
  cases outcome with
  | ok _ => exact fun index above inside => extend above fun later => tells index later inside
  | error fault =>
      obtain ⟨index, format, told, later, inside, holds, first⟩ := tells
      exact ⟨index, format, told, Nat.le_of_succ_le later, inside, holds,
        fun earlier above below => extend above fun later => first earlier later below⟩

theorem checkReference_eq {index : Nat} {tag : Tag} {target : Int} {kind : Target} :
    (pool.checkReference index tag target kind = .ok () ∧ pool.Leads target kind) ∨
      ∃ fault, pool.checkReference index tag target kind = .error fault ∧
        ¬ pool.Leads target kind ∧ fault.kind = .format ∧ fault.poolIndex = index := by
  unfold checkReference Leads
  by_cases within : pool.isWithin target = true
  · rw [if_neg (not_not_intro within)]
    cases here : pool.entryAt target.toNat with
    | none => exact .inr ⟨_, rfl, by simp, rfl, rfl⟩
    | some found =>
        cases accepted : kind.accepts found.tag with
        | true => exact .inl ⟨by simp [accepted], within, found, rfl, accepted⟩
        | false => exact .inr ⟨_, by simp [accepted]; rfl, by simp [accepted], rfl, rfl⟩
  · rw [if_pos within]
    exact .inr ⟨_, rfl, fun leads => within leads.1, rfl, rfl⟩

theorem checkReferences_eq {index : Nat} {tag : Tag} {references : List (Int × Target)} :
    (pool.checkReferences index tag references = .ok () ∧
        ∀ target kind, (target, kind) ∈ references → pool.Leads target kind) ∨
      ∃ fault, pool.checkReferences index tag references = .error fault ∧
        (¬ ∀ target kind, (target, kind) ∈ references → pool.Leads target kind) ∧
        fault.kind = .format ∧ fault.poolIndex = index := by
  induction references with
  | nil => exact .inl ⟨rfl, fun _ _ member => absurd member List.not_mem_nil⟩
  | cons first rest ih =>
      obtain ⟨target, kind⟩ := first
      unfold checkReferences
      rcases @checkReference_eq pool index tag target kind with
        ⟨checked, leads⟩ | ⟨fault, checked, astray, format, told⟩
      · rw [checked]
        rcases ih with ⟨checked', leads'⟩ | ⟨fault, checked', astray, format, told⟩
        · refine .inl ⟨checked', fun other kind' member => ?_⟩
          rcases List.mem_cons.mp member with same | later
          · cases same
            exact leads
          · exact leads' other kind' later
        · exact .inr ⟨fault, checked', fun all => astray fun other kind' member =>
            all other kind' (List.mem_cons_of_mem _ member), format, told⟩
      · rw [checked]
        refine .inr ⟨fault, rfl, fun all => ?_, format, told⟩
        exact astray (all target kind List.mem_cons_self)

theorem entryAt_of_drop {start : Nat} {slot : Option Entry} {rest : List (Option Entry)}
    (here : pool.slots.toList.drop start = slot :: rest) :
    start < pool.length ∧ pool.entryAt start = slot ∧
      pool.slots.toList.drop (start + 1) = rest := by
  have found : pool.slots.toList[start]? = some slot := by
    rw [← List.head?_drop, here, List.head?_cons]
  refine ⟨?_, ?_, ?_⟩
  · obtain ⟨inside, -⟩ := List.getElem?_eq_some_iff.mp found
    simpa [length] using inside
  · unfold entryAt
    rw [← Array.getElem?_toList, found]
    rfl
  · rw [← List.tail_drop, here, List.tail_cons]

/-- The walk tells the first slot that it sees and that is not sound. It is at a slot that is passed
over if `skip` is set. -/
theorem tellsFirst_verifyFrom {start : Nat} {skip : Bool} {slots : List (Option Entry)}
    (here : pool.slots.toList.drop start = slots) (walk : pool.passesOver start = skip) :
    pool.TellsFirst pool.Fails start (pool.verifyFrom start skip slots) := by
  induction slots generalizing start skip with
  | nil =>
      intro index above inside
      have ended := List.drop_eq_nil_iff.mp here
      simp only [Array.length_toList] at ended
      exact absurd (Nat.lt_of_lt_of_le inside (Nat.le_trans ended above)) (Nat.lt_irrefl _)
  | cons slot rest ih =>
      obtain ⟨inside, entry, next⟩ := entryAt_of_drop here
      unfold verifyFrom
      cases skip with
      | true =>
          have onward : pool.passesOver (start + 1) = false := by simp [passesOver, walk]
          refine (ih next onward).before fun fails => ?_
          cases walk.symm.trans fails.1
      | false =>
          cases slot with
          | none =>
              refine ⟨start, rfl, rfl, Nat.le_refl _, inside, ⟨walk, ?_⟩, by omega⟩
              rintro ⟨found, there, -⟩
              rw [entry] at there
              cases there
          | some constant =>
              simp only [Bool.false_eq_true, if_false]
              rcases @checkReferences_eq pool start constant.tag constant.references with
                ⟨checked, leads⟩ | ⟨fault, checked, astray, format, told⟩
              · have onward : pool.passesOver (start + 1) = constant.isWide := by
                  simp [passesOver, walk, entry]
                rw [checked]
                exact (ih next onward).before fun fails => fails.2 ⟨constant, entry, leads⟩
              · rw [checked]
                refine ⟨start, format, told, Nat.le_refl _, inside, ⟨walk, ?_⟩, by omega⟩
                rintro ⟨found, there, leads⟩
                obtain rfl := Option.some.inj (entry.symm.trans there)
                exact astray leads

theorem Formed.tellsFirst_verify (formed : pool.Formed) :
    pool.TellsFirst pool.Fails 1 pool.verify :=
  tellsFirst_verifyFrom rfl (by simp [passesOver, formed.unused])

/-! ## Clear pools -/

theorem isUpperHalf_of_passesOver {index : Nat} (passed : pool.passesOver index = true) :
    pool.IsUpperHalf index := by
  cases index with
  | zero => cases passed
  | succ lower =>
      unfold passesOver at passed
      rw [Bool.and_eq_true] at passed
      exact isUpperHalf_succ_iff.mpr passed.2

/-- In a clear pool the walk passes over the upper halves and over nothing else. -/
theorem Clear.passesOver_iff (clear : pool.Clear) (index : Nat) :
    pool.passesOver index = true ↔ pool.IsUpperHalf index := by
  refine ⟨isUpperHalf_of_passesOver, ?_⟩
  rintro ⟨lower, entry, rfl, here, wide⟩
  -- the lower half is seen: were it passed over, it would be an upper half and thus empty
  have seen : pool.passesOver lower = false := by
    cases passed : pool.passesOver lower with
    | false => rfl
    | true =>
        rw [clear lower (isUpperHalf_of_passesOver passed)] at here
        cases here
  simp [passesOver, seen, here, wide]

theorem checkReferences_of_leads {index : Nat} {tag : Tag} {references : List (Int × Target)}
    (leads : ∀ target kind, (target, kind) ∈ references → pool.Leads target kind) :
    pool.checkReferences index tag references = .ok () := by
  rcases @checkReferences_eq pool index tag references with ⟨checked, -⟩ | ⟨_, -, astray, -⟩
  · exact checked
  · exact absurd leads astray

/-- In a clear pool that passed, every constant has been checked. -/
theorem Clear.checked (clear : pool.Clear) (formed : pool.Formed)
    (verified : pool.verify = .ok ()) : pool.Checked := by
  intro index entry here
  have tells := formed.tellsFirst_verify
  rw [verified] at tells
  obtain ⟨positive, inside⟩ := isWithin_iff.mp (isWithin_of_entryAt formed.unused here)
  have seen : pool.passesOver index = false := by
    cases passed : pool.passesOver index with
    | false => rfl
    | true =>
        rw [clear index ((clear.passesOver_iff index).mp passed)] at here
        cases here
  obtain ⟨found, there, leads⟩ : pool.Sound index :=
    Classical.not_not.mp fun unsound => tells index positive inside ⟨seen, unsound⟩
  obtain rfl := Option.some.inj (here.symm.trans there)
  exact checkReferences_of_leads leads

/-! ## What verifying promises -/

/-- A pool that can be used without looking at slot numbers again. -/
structure Safe (pool : Pool) : Prop where
  /-- A reference leads to a constant of the right kind, and to no upper half. -/
  references : ∀ index entry, pool.entryAt index = some entry →
    ∀ target kind, (target, kind) ∈ entry.references →
      ¬ pool.IsUpperHalf target.toNat ∧ pool.Leads target kind
  /-- An upper half is a slot without a constant, and asking for it is an error. -/
  upper : ∀ index, pool.IsUpperHalf index →
    pool.checkedTagAt index = .ok .invalid ∧
      ∀ earlier wanted, ∃ fault, pool.answerAfter earlier (.entry index wanted) = .error fault ∧
        fault.kind = .resolution ∧ fault.reason = some .badIndex
  /-- Every other constant can be resolved, if its kind can be at all. -/
  resolves : ∀ index entry, pool.entryAt index = some entry → entry.tag.isResolvable = true →
    ∀ earlier wanted, wanted.accepts entry.tag = true →
      ∃ found, pool.answerAfter earlier (.entry index wanted) = .ok (.entry found)

/-- The slot is neither an upper half nor has a constant whose references all lead somewhere. -/
def Offends (pool : Pool) (index : Nat) : Prop := ¬ pool.IsUpperHalf index ∧ ¬ pool.Sound index

theorem answerAfter_of_empty {index : Nat} (empty : pool.entryAt index = none)
    (earlier : List Query) (wanted : Wanted) :
    ∃ fault, pool.answerAfter earlier (.entry index wanted) = .error fault ∧
      fault.kind = .resolution ∧ fault.reason = some .badIndex := by
  have absent : pool.isWithin (index : Int) = true → pool.entryAt (index : Int).toNat = none :=
    fun _ => empty
  obtain ⟨fault, visited, resolution, bad, -⟩ := visit_eq_error absent
  refine ⟨fault, ?_, resolution, bad⟩
  rw [answerAfter_eq_reference]
  unfold Query.reference Query.reading Query.wanted
  show (pool.dereference [] index wanted >>= fun found => pure (Answer.entry found)) = _
  rw [dereference_of_error wanted visited]
  rfl

theorem Clear.safe (clear : pool.Clear) (formed : pool.Formed) (verified : pool.verify = .ok ()) :
    pool.Safe := by
  have checked := clear.checked formed verified
  refine ⟨fun index entry here target kind refers => ?_, fun index half => ⟨?_, ?_⟩,
    fun index entry here resolvable earlier wanted accepted => ?_⟩
  · obtain ⟨within, found, there, accepted⟩ := checked.target here refers
    refine ⟨fun half => ?_, within, found, there, accepted⟩
    rw [clear _ half] at there
    cases there
  · obtain ⟨lower, entry, rfl, here, wide⟩ := half
    have within : pool.isWithin (lower + 1 : Nat) = true :=
      isWithin_iff.mpr ⟨by omega, formed.upper lower entry here wide⟩
    rw [checkedTagAt_of_isWithin within, Int.toNat_natCast, tagAt,
      clear _ ⟨lower, entry, rfl, here, wide⟩]
  · exact answerAfter_of_empty (clear index half)
  · obtain ⟨found, answered, -⟩ :=
      checked.answers formed.unused here resolvable earlier accepted
    exact ⟨found, answered⟩

theorem Entry.tag_ne_invalid (entry : Entry) : entry.tag ≠ .invalid := by
  cases entry with
  | member kind parts => cases kind <;> exact nofun
  | _ => exact nofun

theorem Safe.clear (safe : pool.Safe) (formed : pool.Formed) : pool.Clear := by
  rintro index ⟨lower, entry, rfl, here, wide⟩
  have within : pool.isWithin (lower + 1 : Nat) = true :=
    isWithin_iff.mpr ⟨by omega, formed.upper lower entry here wide⟩
  obtain ⟨invalid, -⟩ := safe.upper _ ⟨lower, entry, rfl, here, wide⟩
  rw [checkedTagAt_of_isWithin within, Int.toNat_natCast, tagAt] at invalid
  cases there : pool.entryAt (lower + 1) with
  | none => rfl
  | some found =>
      rw [there] at invalid
      exact absurd (Except.ok.inj invalid) (Entry.tag_ne_invalid found)

/-- Verifying tells the truth about the slots that it sees: a pool that passes is safe if no
constant is in an upper half, and only then, and the slot told otherwise is the first unsound one
that was seen. In a pool without constants in upper halves these are all but the upper halves, so
the slot told is the first that offends. -/
theorem verified_safe_iff_clear {length : Int} (written : Written length pool) :
    (pool.verify = .ok () → (pool.Safe ↔ pool.Clear)) ∧
      pool.TellsFirst pool.Fails 1 pool.verify ∧
      (pool.Clear → pool.TellsFirst pool.Offends 1 pool.verify) := by
  have formed := written.formed
  refine ⟨fun verified => ⟨fun safe => safe.clear formed, fun clear => clear.safe formed verified⟩,
    formed.tellsFirst_verify, fun clear => ?_⟩
  have same : pool.Fails = pool.Offends := by
    funext index
    unfold Fails Offends
    rw [← clear.passesOver_iff, Bool.not_eq_true]
  rw [← same]
  exact formed.tellsFirst_verify

/-- A class in the upper half of a `long`. It refers outside the pool. -/
def overlaid : Pool :=
  ⟨#[none, some (.long 5), some (.classRef 9), some (.utf8 "A")]⟩

theorem written_overlaid : Written 4 overlaid := by
  have new : Written 4 ⟨#[none, none, none, none]⟩ := .allocated rfl
  have long : Pool.put ⟨#[none, none, none, none]⟩ 1 (.long 5) =
      .ok ⟨#[none, some (.long 5), none, none]⟩ := rfl
  have named : Pool.put ⟨#[none, some (.long 5), none, none]⟩ 2 (.classRef 9) =
      .ok ⟨#[none, some (.long 5), some (.classRef 9), none]⟩ := rfl
  have text : Pool.put ⟨#[none, some (.long 5), some (.classRef 9), none]⟩ 3 (.utf8 "A") =
      .ok overlaid := rfl
  exact ((new.put (by decide) long).put (by decide) named).put (by decide) text

/-- The pool passes although its class refers outside it. -/
theorem verified_safe_iff_clear_overlaid :
    Written 4 overlaid ∧ overlaid.verify = .ok () ∧ ¬ overlaid.Safe := by
  have passes : overlaid.verify = .ok () := by rfl
  refine ⟨written_overlaid, passes, fun safe => ?_⟩
  have clear := ((verified_safe_iff_clear written_overlaid).1 passes).mp safe
  exact nomatch clear 2 ⟨1, .long 5, rfl, rfl, rfl⟩

end Jvm.Pool
