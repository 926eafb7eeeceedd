/-
# Jvm.Proofs.ClassFile.Pools — the pool of a class file

Apart from being checked, the pool of a class that was read is full and terminated: each of its
slots but the first holds a constant or is the upper half of the one before (`Pool.Full`), and no
text in it has a zero byte (`Pool.Terminated`).
-/
import Jvm.Proofs.ClassFile.Declared

namespace Jvm

set_option autoImplicit false

namespace Pool

/-- The slot after a wide constant. -/
def IsUpperHalf (pool : Pool) (index : Nat) : Prop :=
  ∃ lower entry, index = lower + 1 ∧ pool.entryAt lower = some entry ∧ entry.isWide = true

theorem isUpperHalf_succ_iff {pool : Pool} {lower : Nat} :
    pool.IsUpperHalf (lower + 1) ↔ (pool.entryAt lower).any Entry.isWide = true := by
  rw [Option.any_eq_true]
  constructor
  · rintro ⟨_, entry, same, here, wide⟩
    obtain rfl := Nat.succ.inj same
    exact ⟨entry, here, wide⟩
  · rintro ⟨entry, here, wide⟩
    exact ⟨lower, entry, rfl, here, wide⟩

/-- The upper halves of wide constants are the only empty slots, apart from the first. -/
def Full (pool : Pool) : Prop :=
  ∀ index : Nat, pool.isWithin index = true → (pool.entryAt index = none ↔ pool.IsUpperHalf index)

/-- Every text ends before its first zero byte. -/
def Terminated (pool : Pool) : Prop :=
  ∀ index text, pool.entryAt index = some (.utf8 text) → Text.upToNul text = text

/-! ## Empty slots -/

/-- Verifying passes over no empty slot but one after a wide constant. -/
theorem exists_wide_of_verifyFrom {pool : Pool} {start : Nat} {skip : Bool}
    {slots : List (Option Entry)} (verified : pool.verifyFrom start skip slots = .ok ()) {k : Nat}
    (here : slots[k]? = some none) :
    (k = 0 ∧ skip = true) ∨
      ∃ j entry, k = j + 1 ∧ slots[j]? = some (some entry) ∧ entry.isWide = true := by
  induction slots generalizing start skip k with
  | nil => cases here
  | cons slot rest ih =>
      unfold verifyFrom at verified
      cases skip with
      | true =>
          cases k with
          | zero => exact .inl ⟨rfl, rfl⟩
          | succ k =>
              rcases ih verified here with ⟨-, impossible⟩ | ⟨j, entry, rfl, there, wide⟩
              · cases impossible
              · exact .inr ⟨j + 1, entry, rfl, there, wide⟩
      | false =>
          cases slot with
          | none => cases verified
          | some first =>
              simp only [Bool.false_eq_true, if_false] at verified
              split at verified
              · cases verified
              · cases k with
                | zero => cases here
                | succ k =>
                    rcases ih verified here with ⟨rfl, wide⟩ | ⟨j, entry, rfl, there, wide⟩
                    · exact .inr ⟨0, first, rfl, rfl, wide⟩
                    · exact .inr ⟨j + 1, entry, rfl, there, wide⟩

/-- Nothing is kept in the slot after a wide constant. -/
theorem Spaced.after {skip : Bool} {slots : List (Option Entry)} (spaced : Spaced skip slots)
    {k : Nat} {entry : Entry} (here : slots[k]? = some (some entry)) (wide : entry.isWide = true) :
    (slots[k + 1]?).join = none := by
  induction slots generalizing skip k with
  | nil => cases here
  | cons slot rest ih =>
      cases k with
      | succ k =>
          cases skip with
          | true => exact ih spaced.2 here
          | false => cases slot <;> exact ih spaced here
      | zero =>
          cases here
          cases skip with
          | true => cases spaced.1
          | false =>
              change Spaced entry.isWide rest at spaced
              rw [wide] at spaced
              cases rest with
              | nil => rfl
              | cons next rest => exact spaced.1 ▸ rfl

theorem full_of_verify {slots : List (Option Entry)} (spaced : Spaced false slots)
    (verified : Pool.verify ⟨(none :: slots).toArray⟩ = .ok ()) :
    Full ⟨(none :: slots).toArray⟩ := by
  intro index within
  simp only [isWithin, length, List.size_toArray, List.length_cons, Bool.and_eq_true,
    decide_eq_true_eq] at within
  obtain ⟨k, rfl⟩ : ∃ k, index = k + 1 := ⟨index - 1, by omega⟩
  have below : k < slots.length := by omega
  have read (j : Nat) : entryAt ⟨(none :: slots).toArray⟩ (j + 1) = (slots[j]?).join := by
    simp [entryAt]
  constructor
  · intro empty
    rw [read, List.getElem?_eq_getElem below, Option.join_some] at empty
    have here : slots[k]? = some none := by rw [List.getElem?_eq_getElem below, empty]
    have before := exists_wide_of_verifyFrom verified here
    rcases before with ⟨-, impossible⟩ | ⟨j, entry, rfl, there, wide⟩
    · cases impossible
    · exact ⟨j + 1, entry, rfl, (read j).trans (Option.join_eq_some_iff.mpr there), wide⟩
  · rintro ⟨lower, entry, same, there, wide⟩
    obtain rfl := Nat.succ.inj same
    cases k with
    | zero => cases there
    | succ j =>
        rw [read, Option.join_eq_some_iff] at there
        rw [read, spaced.after there wide]

end Pool

namespace ClassFile.Reader

open Pool (Entry)

/-- What every constant that is read satisfies, every entry of the slots does. -/
theorem gives_slots_all {P : Entry → Prop}
    (constants : ∀ code reader, constant? code = some reader → Gives P reader) (length free : Nat) :
    Gives (fun slots => ∀ entry, some entry ∈ slots → P entry) (slots length free) := by
  induction free using Nat.strongRecOn with
  | ind free ih =>
      cases free with
      | zero => exact gives_pure (by simp)
      | succ free =>
          unfold slots
          refine gives_after fun code => ?_
          split
          · exact gives_after fun _ => gives_throw _
          · rename_i reader known
            split
            · refine gives_bind (constants code reader known) fun entry holds => ?_
              refine gives_bind (ih free (Nat.lt_succ_self free)) fun rest others => gives_pure ?_
              intro other member
              rcases List.mem_cons.mp member with same | later
              · exact Option.some.inj same ▸ holds
              · exact others other later
            · split
              · exact gives_after fun _ => gives_throw _
              · rename_i free'
                refine gives_bind (constants code reader known) fun entry holds => ?_
                refine gives_bind (ih free' (by omega)) fun rest others => gives_pure ?_
                intro other member
                rcases List.mem_cons.mp member with same | later
                · exact Option.some.inj same ▸ holds
                · exact others other (by simpa using later)

theorem gives_constant_terminated {code : Nat} {reader : Reader Entry}
    (known : constant? code = some reader) :
    Gives (fun entry => ∀ text, entry = .utf8 text → Text.upToNul text = text) reader := by
  unfold constant? at known
  split at known
  · cases known
  · cases known
    refine gives_after fun length => gives_after fun bytes => gives_pure fun text same => ?_
    cases same
    exact Text.upToNul_upToNul _
  all_goals
    cases known
    exact gives_after fun _ => gives_pure fun _ same => by cases same

theorem gives_pool_terminated : Gives Pool.Terminated pool :=
  gives_pool_of (gives_slots_all fun _ _ => gives_constant_terminated) fun slots holds _ => by
    intro index text here
    have listed : some (Entry.utf8 text) ∈ none :: slots := by
      refine List.mem_of_getElem? (i := index) ?_
      simpa [Pool.entryAt, Option.join_eq_some_iff] using here
    exact holds _ (by simpa using listed) text rfl

theorem gives_pool_full : Gives Pool.Full pool :=
  gives_pool_of gives_slots fun _ spaced verified => Pool.full_of_verify spaced verified

/-- The pool of a class that was read is one that was read. -/
theorem gives_wholeClass_pool {P : Pool → Prop} (read : Gives P pool) :
    Gives (fun c => P c.pool) wholeClass := by
  unfold wholeClass
  refine gives_after fun version => gives_bind read fun pool holds =>
    gives_after fun flags => gives_after fun nameIndex => gives_after fun name =>
    gives_after fun superName => gives_after fun interfaceCount => gives_after fun interfaces =>
    gives_after fun fieldCount => gives_after fun fields => gives_after fun methodCount =>
    gives_after fun methods => gives_after fun sourceIndex => gives_after fun cursor => ?_
  dsimp only
  split
  · exact gives_after fun _ => gives_after fun _ => gives_pure holds
  · exact gives_pure holds

theorem pool_ofBytes {P : Pool → Prop} (read : Gives P pool) {source : String} {bytes : List UInt8}
    {c : Class} (made : Class.ofBytes source bytes = .ok c) : P c.pool := by
  unfold Class.ofBytes at made
  split at made
  · rename_i found later run
    cases made
    exact gives_wholeClass_pool read _ _ _ run
  · cases made

end ClassFile.Reader

end Jvm
