/-
# Jvm.Proofs.ClassFile.Reads — which bytes a reader takes

`Reads reader bytes v` says that a reader takes exactly `bytes`, wherever they stand and whatever
follows them, and answers with `v`. A reader is `Exact` if every answer comes about in this way,
if it is not content with a beginning of the bytes that it takes, and if whatever it refuses is
malformed. Both are stated for the ways in which readers are put together, so that the law about a
part of a file is a composition of laws about its parts.
-/
import Jvm.Proofs.ClassFile.Gives

namespace Jvm.ClassFile.Reader

set_option autoImplicit false

variable {α β : Type}

/-- A reader takes exactly these bytes and answers. -/
def Reads (reader : Reader α) (bytes : List UInt8) (v : α) : Prop :=
  ∀ source offset rest,
    reader ⟨source, offset, bytes ++ rest⟩ = .ok v ⟨source, offset + bytes.length, rest⟩

/-- Whatever a reader is given, it is malformed. -/
def Refuses (reader : Reader α) : Prop :=
  ∀ cursor, ∃ fault later, reader cursor = .error fault later ∧ fault.kind = .format

structure Exact (reader : Reader α) : Prop where
  takes : ∀ {cursor v later}, reader cursor = .ok v later →
    ∃ bytes, cursor.rest = bytes ++ later.rest ∧ Reads reader bytes v
  needs : ∀ {short missing v}, Reads reader (short ++ missing) v → missing ≠ [] →
    ∀ source offset, ∃ fault later, reader ⟨source, offset, short⟩ = .error fault later
  refuses : ∀ {cursor fault later}, reader cursor = .error fault later → fault.kind = .format

/-- The beginning of two texts in a row ends inside the first one or after it. -/
theorem cut_within_or_after {short missing bytes more : List UInt8}
    (whole : short ++ missing = bytes ++ more) :
    (∃ lost, bytes = short ++ lost ∧ lost ≠ []) ∨
      ∃ kept, short = bytes ++ kept ∧ more = kept ++ missing := by
  rcases List.append_eq_append_iff.mp whole with ⟨lost, within, after⟩ | ⟨kept, within, after⟩
  · by_cases cut : lost = []
    · exact .inr ⟨[], by simp [within, cut], by simp [after, cut]⟩
    · exact .inl ⟨lost, within, cut⟩
  · exact .inr ⟨kept, within, after⟩

/-! ## Readers in sequence -/

section Sequence

variable {first : Reader α} {next : α → Reader β} {v : α}

theorem Reads.length {reader : Reader α} {bytes : List UInt8} (reads : Reads reader bytes v)
    {cursor later : Cursor} (run : reader cursor = .ok v later)
    (split : cursor.rest = bytes ++ later.rest) : later.offset = cursor.offset + bytes.length := by
  obtain ⟨source, offset, rest⟩ := cursor
  have ran := reads source offset later.rest
  rw [← split, run] at ran
  exact congrArg Cursor.offset (EStateM.Result.ok.inj ran).2

theorem reads_pure : Reads (pure v : Reader α) [] v := fun _ _ _ => rfl

theorem Reads.bind {bytes more : List UInt8} {w : β} (one : Reads first bytes v)
    (two : Reads (next v) more w) : Reads (first >>= next) (bytes ++ more) w := by
  intro source offset rest
  rw [List.append_assoc, bind_of_ok (one source offset (more ++ rest)), two, List.length_append,
    Nat.add_assoc]

/-- A reader that takes nothing, in front of another. -/
theorem Reads.before {bytes : List UInt8} {w : β} (one : Reads first [] v)
    (two : Reads (next v) bytes w) : Reads (first >>= next) bytes w := one.bind two

/-- A reader in front of one that takes nothing more. -/
theorem Reads.map {bytes : List UInt8} {w : β} (one : Reads first bytes v)
    (two : Reads (next v) [] w) : Reads (first >>= next) bytes w := by
  simpa using one.bind two

theorem refuses_throw {fault : Fault} (malformed : fault.kind = .format) :
    Refuses (throw fault : Reader α) := fun cursor => ⟨fault, cursor, rfl, malformed⟩

theorem refuses_fail {cause : Cause} (malformed : cause.kind = .format) :
    Refuses (fail cause : Reader α) := refuses_throw malformed

theorem Refuses.bind (refuses : Refuses first) : Refuses (first >>= next) := by
  intro cursor
  obtain ⟨fault, later, run, malformed⟩ := refuses cursor
  exact ⟨fault, later, bind_of_error run, malformed⟩

theorem refuses_after_source {reader : String → Reader β}
    (refuses : ∀ name, Refuses (reader name)) : Refuses (source >>= reader) :=
  fun cursor => refuses cursor.sourceName cursor

/-- A fault that says where the bytes come from, in front of what is not done then. -/
theorem refuses_naming {cause : String → Cause} (malformed : ∀ name, (cause name).kind = .format) :
    Refuses (source >>= fun name => fail (cause name) >>= next) :=
  refuses_after_source fun name => (refuses_fail (malformed name)).bind

theorem Refuses.exact (refuses : Refuses first) : Exact first where
  takes {cursor v later} run := by
    obtain ⟨fault, later', run', -⟩ := refuses cursor
    rw [run] at run'
    cases run'
  needs _ _ source offset := by
    obtain ⟨fault, later, run, -⟩ := refuses ⟨source, offset, _⟩
    exact ⟨fault, later, run⟩
  refuses {cursor fault later} run := by
    obtain ⟨fault', later', run', malformed⟩ := refuses cursor
    rw [run] at run'
    cases run'
    exact malformed

theorem exact_pure : Exact (pure v : Reader α) where
  takes {cursor w later} run := by
    cases run
    exact ⟨[], rfl, reads_pure⟩
  needs {short missing w} reads more := by
    have run := reads none 0 []
    have same : short ++ missing ++ [] = [] :=
      congrArg Cursor.rest (EStateM.Result.ok.inj run).2
    simp only [List.append_eq_nil_iff] at same
    exact absurd same.1.2 more
  refuses run := by cases run

theorem Exact.bind (one : Exact first) (rest : ∀ v, Exact (next v)) : Exact (first >>= next) where
  takes {cursor w last} run := by
    obtain ⟨v, middle, run, run'⟩ := bind_eq_ok.mp run
    obtain ⟨bytes, split, taken⟩ := one.takes run
    obtain ⟨more, split', taken'⟩ := (rest v).takes run'
    exact ⟨bytes ++ more, by rw [split, split', List.append_assoc], taken.bind taken'⟩
  needs {short missing w} reads incomplete source offset := by
    obtain ⟨v, middle, run, run'⟩ := bind_eq_ok.mp (reads source offset [])
    obtain ⟨bytes, split, taken⟩ := one.takes run
    obtain ⟨more, split', taken'⟩ := (rest v).takes run'
    have whole : short ++ missing = bytes ++ more := by simpa [split'] using split
    rcases cut_within_or_after whole with ⟨lost, within, cut⟩ | ⟨kept, rfl, rfl⟩
    · rw [within] at taken
      obtain ⟨fault, later, failed⟩ := one.needs taken cut source offset
      exact ⟨fault, later, bind_of_error failed⟩
    · obtain ⟨fault, later, failed⟩ :=
        (rest v).needs taken' incomplete source (offset + bytes.length)
      exact ⟨fault, later, by rw [bind_of_ok (taken source offset kept), failed]⟩
  refuses {cursor fault later} run := by
    cases ran : first cursor with
    | ok v middle =>
        rw [bind_of_ok ran] at run
        exact (rest v).refuses run
    | error fault' middle =>
        rw [bind_of_error ran] at run
        cases run
        exact one.refuses ran

end Sequence

/-! ## Bytes and numbers -/

theorem take_eq (count : Int) (cursor : Cursor) :
    take count cursor =
      if cursor.has count then .ok (cursor.rest.take count.toNat) (cursor.advance count.toNat)
      else .error (.of (cursor.truncated count)) cursor := by
  show (bind get _ : Reader _) cursor = _
  rw [bind_get]
  split <;> rfl

theorem has_eq_true {cursor : Cursor} {count : Int} :
    cursor.has count = true ↔ 0 ≤ count ∧ count ≤ cursor.rest.length := by
  unfold Cursor.has
  rw [Bool.and_eq_true, decide_eq_true_eq, decide_eq_true_eq, Cursor.remaining]

theorem reads_take (bytes : List UInt8) : Reads (take bytes.length) bytes bytes := by
  intro source offset rest
  have room : 0 ≤ (bytes.length : Int) ∧ (bytes.length : Int) ≤ (bytes ++ rest).length := by
    rw [List.length_append]
    omega
  rw [take_eq, if_pos (has_eq_true.mpr room)]
  simp [Cursor.advance]

theorem exact_take (count : Int) : Exact (take count) where
  takes {cursor v later} run := by
    rw [take_eq] at run
    split at run
    · rename_i room
      rw [has_eq_true] at room
      cases run
      refine ⟨cursor.rest.take count.toNat, (List.take_append_drop _ _).symm, ?_⟩
      have reads := reads_take (cursor.rest.take count.toNat)
      rwa [List.length_take, show ((min count.toNat cursor.rest.length : Nat) : Int) = count by omega]
        at reads
    · cases run
  needs {short missing v} reads incomplete source offset := by
    have run := reads source offset []
    rw [take_eq] at run
    split at run
    · -- Nothing is left of the bytes, so as many were asked for as there are.
      have nothing := congrArg Cursor.rest (EStateM.Result.ok.inj run).2
      have left : 0 < missing.length := List.length_pos_iff.mpr incomplete
      simp only [Cursor.advance, List.append_nil, List.drop_eq_nil_iff, List.length_append] at nothing
      have lacking : ¬ (Cursor.mk source offset short).has count = true := by
        rw [has_eq_true]
        dsimp only
        omega
      exact ⟨_, _, by rw [take_eq, if_neg lacking]⟩
    · cases run
  refuses {cursor fault later} run := by
    rw [take_eq] at run
    split at run
    · cases run
    · cases run
      rfl

theorem reads_number {width n : Nat} (fits : n < 256 ^ width) :
    Reads (number width) (BigEndian.encode width n) n := by
  have taken := reads_take (BigEndian.encode width n)
  rw [BigEndian.length_encode] at taken
  have decoded : BigEndian.decode (BigEndian.encode width n) = n := by
    rw [BigEndian.decode_encode]
    exact Nat.mod_eq_of_lt fits
  have reads : Reads (number width) (BigEndian.encode width n)
      (BigEndian.decode (BigEndian.encode width n)) := taken.map reads_pure
  rwa [decoded] at reads

theorem exact_number (width : Nat) : Exact (number width) :=
  (exact_take width).bind fun _ => exact_pure

theorem reads_skip (bytes : List UInt8) : Reads (skip bytes.length) bytes () :=
  (reads_take bytes).map reads_pure

theorem exact_skip (count : Int) : Exact (skip count) := (exact_take count).bind fun _ => exact_pure

/-! ## Repetition -/

theorem reads_many {γ : Type} {reader : Reader α} {write : γ → List UInt8} (value : γ → α)
    {items : List γ} (each : ∀ item ∈ items, Reads reader (write item) (value item)) :
    Reads (many reader items.length) (items.flatMap write) (items.map value) := by
  induction items with
  | nil => exact reads_pure
  | cons first others ih =>
      rw [List.flatMap_cons]
      refine (each first List.mem_cons_self).bind ?_
      exact (ih fun item listed => each item (List.mem_cons_of_mem first listed)).map reads_pure

theorem exact_many {reader : Reader α} (exact : Exact reader) (count : Nat) :
    Exact (many reader count) := by
  induction count with
  | zero => exact exact_pure
  | succ count ih => exact exact.bind fun _ => ih.bind fun _ => exact_pure

theorem exact_iterate {step : α → Reader α} (exact : ∀ v, Exact (step v)) (count : Nat) (start : α) :
    Exact (iterate step count start) := by
  induction count generalizing start with
  | zero => exact exact_pure
  | succ count ih => exact (exact start).bind ih

/-! ## A part whose length is known before -/

/-- Read a part that must have the given length. -/
def measured (reader : Reader α) (length : Nat) : Reader α := do
  let start := (← get).offset
  let v ← reader
  if (← get).offset - start ≠ length then fail (.codeLength length (← source))
  return v

theorem measured_of_ok {reader : Reader α} {length : Nat} {cursor later : Cursor} {v : α}
    (run : reader cursor = .ok v later) :
    measured reader length cursor =
      if later.offset - cursor.offset ≠ length then
        .error (.of (.codeLength length later.sourceName)) later
      else .ok v later := by
  unfold measured
  rw [bind_get]
  dsimp only
  rw [bind_of_ok run, bind_get]
  split <;> rfl

theorem measured_of_error {reader : Reader α} {length : Nat} {cursor later : Cursor} {fault : Fault}
    (run : reader cursor = .error fault later) :
    measured reader length cursor = .error fault later := by
  unfold measured
  rw [bind_get]
  exact bind_of_error run

theorem Reads.measured {reader : Reader α} {bytes : List UInt8} {v : α}
    (reads : Reads reader bytes v) : Reads (measured reader bytes.length) bytes v := by
  intro source offset rest
  rw [measured_of_ok (reads source offset rest)]
  simp

theorem Exact.measured {reader : Reader α} (exact : Exact reader) (length : Nat) :
    Exact (measured reader length) where
  takes {cursor v later} run := by
    cases ran : reader cursor with
    | error fault middle => rw [measured_of_error ran] at run; cases run
    | ok w middle =>
        obtain ⟨bytes, split, taken⟩ := exact.takes ran
        rw [measured_of_ok ran, taken.length ran split] at run
        split at run
        · cases run
        · rename_i fits
          cases run
          obtain rfl : bytes.length = length := by omega
          exact ⟨bytes, split, taken.measured⟩
  needs {short missing v} reads incomplete source offset := by
    cases ran : reader ⟨source, offset, short ++ missing ++ []⟩ with
    | error fault middle =>
        have run := reads source offset []
        rw [measured_of_error ran] at run
        cases run
    | ok w middle =>
        have run := reads source offset []
        obtain ⟨bytes, split, taken⟩ := exact.takes ran
        rw [measured_of_ok ran] at run
        split at run
        · cases run
        · cases run
          obtain rfl : short ++ missing = bytes := by simpa using split
          obtain ⟨fault, later, failed⟩ := exact.needs taken incomplete source offset
          exact ⟨fault, later, measured_of_error failed⟩
  refuses {cursor fault later} run := by
    cases ran : reader cursor with
    | error fault' middle =>
        rw [measured_of_error ran] at run
        cases run
        exact exact.refuses ran
    | ok w middle =>
        rw [measured_of_ok ran] at run
        split at run
        · cases run
          rfl
        · cases run

end Jvm.ClassFile.Reader
