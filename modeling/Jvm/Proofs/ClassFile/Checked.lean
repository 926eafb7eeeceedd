/-
# Jvm.Proofs.ClassFile.Checked — the references in the pool of a class file

Verifying a pool passes over the slot after each wide constant. Reading leaves that slot empty
(`Spaced`), so in a pool that was read every entry has been checked (`Pool.Checked`), whatever
slot it is in.
-/
import Jvm.Pool.Resolve
import Jvm.Proofs.ClassFile.Gives

namespace Jvm

set_option autoImplicit false

namespace Pool

/-- Whatever an entry refers to is in the pool and of the right kind. -/
def Checked (pool : Pool) : Prop :=
  ∀ index entry, pool.entryAt index = some entry →
    pool.checkReferences index entry.tag entry.references = .ok ()

/-- The slot after a wide constant is empty; so is the first one if `skip` is set. -/
def Spaced : Bool → List (Option Entry) → Prop
  | _, [] => True
  | true, slot :: rest => slot = none ∧ Spaced false rest
  | false, none :: rest => Spaced false rest
  | false, some entry :: rest => Spaced entry.isWide rest

theorem checkReferences_of_verifyFrom {pool : Pool} {start : Nat} {skip : Bool}
    {slots : List (Option Entry)} (verified : pool.verifyFrom start skip slots = .ok ())
    (spaced : Spaced skip slots) {k : Nat} {entry : Entry} (here : slots[k]? = some (some entry)) :
    pool.checkReferences (start + k) entry.tag entry.references = .ok () := by
  induction slots generalizing start skip k with
  | nil => cases here
  | cons slot rest ih =>
      unfold verifyFrom at verified
      cases skip with
      | true =>
          obtain ⟨rfl, spaced'⟩ := spaced
          cases k with
          | zero => cases here
          | succ k =>
              rw [Nat.add_succ, ← Nat.succ_add]
              exact ih verified spaced' here
      | false =>
          cases slot with
          | none => cases verified
          | some first =>
              simp only [Bool.false_eq_true, if_false] at verified
              split at verified
              · cases verified
              · rename_i checked
                cases k with
                | zero =>
                    cases here
                    exact checked
                | succ k =>
                    rw [Nat.add_succ, ← Nat.succ_add]
                    exact ih verified spaced here

theorem checked_of_verify {slots : List (Option Entry)} (spaced : Spaced false slots)
    (verified : Pool.verify ⟨(none :: slots).toArray⟩ = .ok ()) :
    Checked ⟨(none :: slots).toArray⟩ := by
  intro index entry here
  have found : (none :: slots)[index]? = some (some entry) := by
    simpa [entryAt, Option.join_eq_some_iff] using here
  cases index with
  | zero => cases found
  | succ k =>
      rw [Nat.add_comm k 1]
      exact checkReferences_of_verifyFrom verified spaced found

theorem checkReference_eq_ok {pool : Pool} {index : Nat} {tag : Tag} {target : Int} {kind : Target}
    (checked : pool.checkReference index tag target kind = .ok ()) :
    pool.isWithin target = true ∧
      ∃ found, pool.entryAt target.toNat = some found ∧ kind.accepts found.tag = true := by
  unfold checkReference at checked
  split at checked
  · cases checked
  · rename_i within
    split at checked
    · cases checked
    · rename_i found here
      split at checked
      · exact ⟨Decidable.not_not.mp within, found, here, ‹_›⟩
      · cases checked

theorem checkReference_of_mem {pool : Pool} {index : Nat} {tag : Tag}
    {references : List (Int × Target)} (checked : pool.checkReferences index tag references = .ok ())
    {target : Int} {kind : Target} (refers : (target, kind) ∈ references) :
    pool.checkReference index tag target kind = .ok () := by
  induction references with
  | nil => cases refers
  | cons first rest ih =>
      unfold checkReferences at checked
      split at checked
      · cases checked
      · rename_i good
        rcases List.mem_cons.mp refers with rfl | later
        · exact good
        · exact ih checked later

/-- A reference leads to a constant of the kind that it needs. -/
theorem Checked.target {pool : Pool} (checked : pool.Checked) {index : Nat} {entry : Entry}
    (here : pool.entryAt index = some entry) {target : Int} {kind : Target}
    (refers : (target, kind) ∈ entry.references) :
    pool.isWithin target = true ∧
      ∃ found, pool.entryAt target.toNat = some found ∧ kind.accepts found.tag = true :=
  checkReference_eq_ok (checkReference_of_mem (checked index entry here) refers)

theorem exists_utf8 {entry : Entry} (text : entry.tag = .utf8) : ∃ content, entry = .utf8 content := by
  cases entry with
  | utf8 content => exact ⟨content, rfl⟩
  | member kind parts => cases kind <;> cases text
  | _ => cases text

/-- The text of a string constant can be found. -/
theorem Checked.string {pool : Pool} (checked : pool.Checked) {index : Nat} {text : Int}
    (here : pool.entryAt index = some (.string text)) :
    ∃ content, pool.utf8At [index] text = .ok content := by
  obtain ⟨within, found, target, accepted⟩ := checked.target here (List.mem_singleton_self _)
  obtain ⟨content, rfl⟩ := exists_utf8 (eq_of_beq accepted).symm
  have apart : text.toNat ∉ [index] := by
    intro same
    rw [List.mem_singleton.mp same, here] at target
    cases target
  refine ⟨content, ?_⟩
  unfold utf8At select visit reach
  rw [if_neg (not_not_intro within), target]
  simp [apart, Entry.text?]

end Pool

namespace ClassFile.Reader

open Pool (Entry Spaced Tag)

theorem gives_constant {code : Nat} {reader : Reader Entry} (known : constant? code = some reader) :
    Gives (fun entry => entry.isWide = (wideTag? code).isSome) reader := by
  unfold constant? at known
  unfold wideTag?
  cases tag : Tag.ofCode? code with
  | none =>
      rw [tag] at known
      cases known
  | some found =>
      rw [tag, Option.getD_some] at known
      cases found with
      | invalid => cases known
      | utf8 =>
          cases known
          exact gives_after fun _ => gives_after fun _ => gives_pure rfl
      | _ =>
          cases known
          exact gives_after fun _ => gives_pure rfl

theorem gives_slots (length free : Nat) : Gives (Spaced false) (slots length free) := by
  induction free using Nat.strongRecOn with
  | ind free ih =>
      cases free with
      | zero => exact gives_pure trivial
      | succ free =>
          unfold slots
          refine gives_after fun code => ?_
          split
          · exact gives_after fun _ => gives_throw _
          · rename_i reader known
            split
            · rename_i narrow
              refine gives_bind (gives_constant known) fun entry wide => ?_
              refine gives_bind (ih free (Nat.lt_succ_self free)) fun rest spaced => gives_pure ?_
              show Spaced entry.isWide rest
              rw [wide, narrow]
              exact spaced
            · rename_i tag two
              split
              · exact gives_after fun _ => gives_throw _
              · rename_i free'
                refine gives_bind (gives_constant known) fun entry wide => ?_
                refine gives_bind (ih free' (by omega)) fun rest spaced => gives_pure ?_
                show Spaced entry.isWide (none :: rest)
                rw [wide, two]
                exact ⟨rfl, spaced⟩

/-- A pool that was read has the slots that were read, and they have been verified. -/
theorem gives_pool_of {P : Pool → Prop} {Q : List (Option Entry) → Prop}
    (read : ∀ length free, Gives Q (slots length free))
    (verified : ∀ slots, Q slots → Pool.verify ⟨(none :: slots).toArray⟩ = .ok () →
      P ⟨(none :: slots).toArray⟩) : Gives P pool := by
  refine gives_after fun length => ?_
  dsimp only
  split
  · exact gives_after fun _ => gives_bind (gives_throw (P := fun _ => False) _) fun _ never => never.elim
  · refine gives_bind (read _ _) fun slots given => ?_
    split
    · rename_i passed
      exact gives_pure (verified slots given passed)
    · exact gives_throw _

/-- In a pool that was read every entry has been checked, and the first slot is empty. -/
theorem gives_pool : Gives (fun pool => pool.Checked ∧ pool.entryAt 0 = none) pool :=
  gives_pool_of gives_slots fun _ spaced verified => ⟨Pool.checked_of_verify spaced verified, rfl⟩

end ClassFile.Reader

end Jvm
