/-
# Jvm.Proofs.StringTable — what tables of strings hold

Whatever lies in the chains, looking up a text that has been entered finds what it was entered with,
and other texts are found as before (`find?_insert`). In a table into which only new texts are
entered (`Sound`) every entry lies in the chain that its hash selects, so a text is found exactly if
it is in the table (`Sound.find?_eq_some_iff`), and the table counts its texts
(`Sound.length_eq_card`).
-/
import Jvm.StringTable
import Mathlib.Data.Finset.Card

namespace Jvm.StringTable

set_option autoImplicit false

/-- The texts of a table, each with what it was entered with. -/
def pairs (table : StringTable) : List (String × Ref) :=
  table.chains.toList.flatten.map fun entry => (entry.text, entry.ref)

instance : Membership (String × Ref) StringTable := ⟨fun table pair => pair ∈ table.pairs⟩

variable {table : StringTable} {text other : String} {ref : Ref}

theorem mem_of_mem_chain {i : Fin size} {entry : Entry} (member : entry ∈ table.chains[i]) :
    (entry.text, entry.ref) ∈ table := by
  have listed : table.chains[i] ∈ table.chains.toList := by simp
  exact List.mem_map.mpr ⟨entry, List.mem_flatten.mpr ⟨_, listed, member⟩, rfl⟩

theorem exists_mem_chain {pair : String × Ref} (member : pair ∈ table) :
    ∃ (i : Fin size) (entry : Entry), entry ∈ table.chains[i] ∧ (entry.text, entry.ref) = pair := by
  obtain ⟨entry, flat, same⟩ := List.mem_map.mp member
  obtain ⟨chain, listed, member⟩ := List.mem_flatten.mp flat
  obtain ⟨i, below, rfl⟩ := Vector.mem_iff_getElem.mp (Vector.mem_toList_iff.mp listed)
  exact ⟨⟨i, below⟩, entry, member, same⟩

theorem mem_of_find? (found : table.find? text = some ref) : (text, ref) ∈ table := by
  obtain ⟨entry, first, rfl⟩ := Option.map_eq_some_iff.mp found
  have same := List.find?_some first
  simp only [Bool.and_eq_true, beq_iff_eq] at same
  obtain ⟨-, rfl⟩ := same
  exact mem_of_mem_chain (List.mem_of_find?_eq_some first)

/-! ## The empty table -/

@[simp] theorem find?_empty (text : String) : empty.find? text = none := by
  simp [find?, empty]

theorem pairs_empty : empty.pairs = [] := by
  simp [pairs, empty]

theorem not_mem_empty {pair : String × Ref} : pair ∉ empty := by
  show pair ∉ empty.pairs
  simp [pairs_empty]

/-! ## Entering a text -/

theorem flatten_set_perm {α : Type} (lists : List (List α)) (i : Nat) (below : i < lists.length)
    (x : α) : (lists.set i (x :: lists[i])).flatten.Perm (x :: lists.flatten) := by
  induction lists generalizing i with
  | nil => cases below
  | cons first rest ih =>
      cases i with
      | zero => exact .refl _
      | succ i =>
          have inside := ih i (Nat.lt_of_succ_lt_succ below)
          exact (inside.append_left first).trans List.perm_middle

theorem pairs_insert (table : StringTable) (text : String) (ref : Ref) :
    (table.insert text ref).pairs.Perm ((text, ref) :: table.pairs) := by
  have below : (chainOf (hash text)).val < table.chains.toList.length := by simp
  have perm := flatten_set_perm table.chains.toList _ below ⟨hash text, text, ref⟩
  simpa [pairs, insert, Vector.toList_set] using perm.map fun entry => (entry.text, entry.ref)

theorem mem_insert {pair : String × Ref} :
    pair ∈ table.insert text ref ↔ pair = (text, ref) ∨ pair ∈ table :=
  (pairs_insert table text ref).mem_iff.trans List.mem_cons

/-- A text that is entered is found from then on, and all others are found as before. -/
theorem find?_insert (table : StringTable) (text other : String) (ref : Ref) :
    (table.insert text ref).find? other = if other = text then some ref else table.find? other := by
  by_cases same : other = text
  · subst same
    simp [find?, insert]
  · have differ : (text == other) = false := by simpa using Ne.symm same
    by_cases chain : chainOf (hash text) = chainOf (hash other)
    · simp [find?, insert, same, chain, differ]
    · have apart : (chainOf (hash text)).val ≠ (chainOf (hash other)).val :=
        fun equal => chain (Fin.ext equal)
      simp [find?, insert, same, Vector.getElem_set_ne _ _ apart]

/-! ## Sound tables -/

/-- Every entry has the hash of its text and lies in the chain that the hash selects, no text is
entered twice, and the entries are counted. -/
structure Sound (table : StringTable) : Prop where
  placed : ∀ (i : Fin size) (entry : Entry), entry ∈ table.chains[i] →
    entry.hash = hash entry.text ∧ chainOf (hash entry.text) = i
  once : (table.pairs.map (·.1)).Nodup
  counted : table.length = table.pairs.length

theorem sound_empty : empty.Sound where
  placed i entry member := by simp [empty] at member
  once := by simp [pairs_empty]
  counted := by rw [pairs_empty]; rfl

namespace Sound

theorem find?_eq_some_iff (sound : table.Sound) :
    table.find? text = some ref ↔ (text, ref) ∈ table := by
  refine ⟨mem_of_find?, fun member => ?_⟩
  obtain ⟨i, entry, there, same⟩ := exists_mem_chain member
  obtain ⟨rfl, rfl⟩ := Prod.mk.inj same
  obtain ⟨hashed, rfl⟩ := sound.placed i entry there
  -- the chain is searched and something is found, which the text determines
  have some : (table.find? entry.text).isSome = true := by
    unfold find?
    rw [Option.isSome_map, List.find?_isSome]
    exact ⟨entry, there, by simp [hashed]⟩
  obtain ⟨found, is⟩ := Option.isSome_iff_exists.mp some
  have listed : (entry.text, found) ∈ table.pairs := mem_of_find? is
  have same := List.inj_on_of_nodup_map sound.once listed member rfl
  rw [is, (Prod.mk.inj same).2]

theorem insert (sound : table.Sound) (absent : table.find? text = none) (ref : Ref) :
    (table.insert text ref).Sound where
  placed i entry member := by
    by_cases here : chainOf (hash text) = i
    · subst here
      have cases : entry = ⟨hash text, text, ref⟩ ∨ entry ∈ table.chains[chainOf (hash text)] := by
        simpa [StringTable.insert] using member
      rcases cases with rfl | old
      · exact ⟨rfl, rfl⟩
      · exact sound.placed _ entry old
    · have apart : (chainOf (hash text)).val ≠ i.val := fun equal => here (Fin.ext equal)
      refine sound.placed i entry ?_
      simpa [StringTable.insert, Vector.getElem_set_ne _ _ apart] using member
  once := by
    rw [((pairs_insert table text ref).map _).nodup_iff, List.map_cons, List.nodup_cons]
    refine ⟨fun listed => ?_, sound.once⟩
    obtain ⟨⟨_, other⟩, member, rfl⟩ := List.mem_map.mp listed
    rw [sound.find?_eq_some_iff.mpr member] at absent
    cases absent
  counted := by
    rw [(pairs_insert table text ref).length_eq, List.length_cons, ← sound.counted]
    rfl

end Sound

/-- The texts of a table. -/
def texts (table : StringTable) : Finset String := (table.pairs.map (·.1)).toFinset

theorem texts_insert (table : StringTable) (text : String) (ref : Ref) :
    (table.insert text ref).texts = Insert.insert text table.texts := by
  ext other
  have listed := ((pairs_insert table text ref).map (·.1)).mem_iff (a := other)
  simpa [texts] using listed

theorem Sound.mem_texts_iff (sound : table.Sound) :
    text ∈ table.texts ↔ ∃ ref, table.find? text = some ref := by
  simp only [texts, List.mem_toFinset, List.mem_map, sound.find?_eq_some_iff]
  constructor
  · rintro ⟨⟨_, ref⟩, member, rfl⟩
    exact ⟨ref, member⟩
  · rintro ⟨ref, member⟩
    exact ⟨(text, ref), member, rfl⟩

/-- The number of entries is the number of texts. -/
theorem Sound.length_eq_card (sound : table.Sound) : table.length = table.texts.card := by
  rw [texts, List.toFinset_card_of_nodup sound.once, List.length_map, sound.counted]

end Jvm.StringTable
