/-
# Jvm.Proofs.ClassFile.RoundTrip — reading a class file that was written

For each part of a class file there is one lemma here: if the part is valid, its reader takes just
the bytes of the part and answers with what the part declares. The lemmas follow the order of the
file, from constants over attributes to the whole class (`ofBytes_bytes`).
-/
import Jvm.Proofs.ClassFile.PrefixFree
import Jvm.Proofs.ClassFile.Written
import Mathlib.Data.List.TakeWhile

namespace Jvm

set_option autoImplicit false

open BigEndian (encode)
open ClassFile.Reader (Reads)

/-! ## Numbers -/

theorem signed_eq {bits n : Nat} (small : 2 * n < 2 ^ bits) : signed bits n = n := by
  unfold signed
  exact if_pos small

theorem ofInt_signed_toUInt32 (v : Int32) : Int32.ofInt (signed 32 v.toUInt32.toNat) = v := by
  have same : signed 32 v.toUInt32.toNat = v.toInt := (BitVec.toInt_eq_toNat_cond v.toBitVec).symm
  rw [same, Int32.ofInt_toInt]

theorem ofInt_signed_toUInt64 (v : Int64) : Int64.ofInt (signed 64 v.toUInt64.toNat) = v := by
  have same : signed 64 v.toUInt64.toNat = v.toInt := (BitVec.toInt_eq_toNat_cond v.toBitVec).symm
  rw [same, Int64.ofInt_toInt]

/-! ## Texts -/

theorem Text.ofBytes_toBytes {text : String} (within : ∀ c ∈ text.toList, c.toNat < 256) :
    Text.ofBytes (Text.toBytes text) = text := by
  have same : (Text.toBytes text).map (fun byte => Char.ofNat byte.toNat) = text.toList := by
    unfold Text.toBytes
    rw [List.map_map]
    refine (List.map_congr_left fun c listed => ?_).trans (List.map_id' _)
    have kept : c.toNat.toUInt8.toNat = c.toNat := Nat.mod_eq_of_lt (within c listed)
    simp only [Function.comp_apply, kept, Char.ofNat_toNat]
  rw [Text.ofBytes, same, String.ofList_toList]

theorem Text.upToNul_eq_self {text : String} (nonzero : ∀ c ∈ text.toList, 0 < c.toNat) :
    Text.upToNul text = text := by
  have whole : text.toList.takeWhile (· != '\x00') = text.toList := by
    refine List.takeWhile_eq_self_iff.mpr fun c listed => ?_
    have apart : c ≠ '\x00' := by
      rintro rfl
      exact absurd (nonzero _ listed) (by decide)
    simpa using apart
  rw [Text.upToNul, whole, String.ofList_toList]

theorem Text.length_toBytes (text : String) : (Text.toBytes text).length = text.length := by
  rw [Text.toBytes, List.length_map, String.length_toList]

theorem Pool.Pair.of_first_second {parts : Pool.Pair} (unspilled : parts.spill = 0) :
    Pool.Pair.of parts.first parts.second = parts := by
  obtain ⟨low, high, spill⟩ := parts
  obtain rfl : spill = 0 := unspilled
  simp [Pool.Pair.of, Pool.Pair.first, Pool.Pair.second]

namespace ClassFile.Reader

open Pool (Entry Tag)

theorem reads_u2 {n : Nat} (fits : n < 65536) : Reads u2 (encode 2 n) n := reads_number fits

theorem reads_word (n : UInt16) : Reads u2 (encode 2 n.toNat) n.toNat := reads_u2 n.toNat_lt

theorem reads_pair {first second : Reader Nat} {front back : List UInt8} {parts : Pool.Pair}
    (one : Reads first front parts.first) (two : Reads second back parts.second)
    (unspilled : parts.spill = 0) : Reads (pair first second) (front ++ back) parts := by
  refine one.bind (two.map ?_)
  rw [Pool.Pair.of_first_second unspilled]
  exact reads_pure

/-- Two slot numbers in a row. -/
theorem reads_slots {parts : Pool.Pair} (unspilled : parts.spill = 0) :
    Reads (pair u2 u2) (encode 2 parts.first ++ encode 2 parts.second) parts :=
  reads_pair (reads_word parts.low) (reads_word parts.high) unspilled

/-- A slot number that an entry holds with a sign. -/
theorem reads_index {index : Int} (fits : 0 ≤ index ∧ index < 65536) {entry : Int → Pool.Entry} :
    Reads (do return entry (← u2)) (encode 2 index.toNat) (entry index) := by
  have small : index.toNat < 65536 := by omega
  refine (reads_u2 small).map ?_
  rw [Int.toNat_of_nonneg fits.1]
  exact reads_pure

/-! ## Constants -/

theorem wideTag?_code (entry : Entry) :
    wideTag? entry.tag.code = if entry.isWide then some entry.tag else none := by
  rw [wideTag?, Tag.ofCode?_code]
  rfl

theorem reads_constant {entry : Entry} (writable : entry.Writable) :
    ∃ reader, constant? entry.tag.code = some reader ∧ Reads reader entry.data entry := by
  unfold constant?
  rw [Tag.ofCode?_code]
  cases entry with
  | utf8 text =>
      obtain ⟨short, within⟩ := writable
      refine ⟨_, rfl, (reads_u2 short).bind ?_⟩
      rw [← Text.length_toBytes]
      refine (reads_take (Text.toBytes text)).map ?_
      rw [Text.ofBytes_toBytes fun c listed => (within c listed).2, Entry.ofText,
        Text.upToNul_eq_self fun c listed => (within c listed).1]
      exact reads_pure
  | integer v =>
      refine ⟨_, rfl, (reads_number v.toUInt32.toNat_lt).map ?_⟩
      rw [ofInt_signed_toUInt32]
      exact reads_pure
  | float bits =>
      refine ⟨_, rfl, (reads_number bits.toNat_lt).map ?_⟩
      rw [Nat.toUInt32_eq, UInt32.ofNat_toNat]
      exact reads_pure
  | long v =>
      refine ⟨_, rfl, (reads_number v.toUInt64.toNat_lt).map ?_⟩
      rw [ofInt_signed_toUInt64]
      exact reads_pure
  | double bits =>
      refine ⟨_, rfl, (reads_number bits.toNat_lt).map ?_⟩
      rw [Nat.toUInt64_eq, UInt64.ofNat_toNat]
      exact reads_pure
  | classRef index => exact ⟨_, rfl, reads_index writable⟩
  | string index => exact ⟨_, rfl, reads_index writable⟩
  | methodType index => exact ⟨_, rfl, reads_index writable⟩
  | member kind parts =>
      cases kind <;> exact ⟨_, rfl, (reads_slots writable).map reads_pure⟩
  | nameAndType parts => exact ⟨_, rfl, (reads_slots writable).map reads_pure⟩
  | dynamic parts => exact ⟨_, rfl, (reads_slots writable).map reads_pure⟩
  | invokeDynamic parts => exact ⟨_, rfl, (reads_slots writable).map reads_pure⟩
  | methodHandle parts =>
      obtain ⟨narrow, unspilled⟩ := writable
      exact ⟨_, rfl, (reads_pair (reads_number narrow) (reads_word parts.high) unspilled).map
        reads_pure⟩

/-- The slots of constants, when they fill what is left of the pool. -/
theorem reads_pool_slots {constants : List Entry} (writable : ∀ entry ∈ constants, entry.Writable)
    (length : Nat) :
    Reads (slots length (constants.flatMap Entry.slots).length) (constants.flatMap Entry.bytes)
      (constants.flatMap Entry.slots) := by
  induction constants with
  | nil => exact reads_pure
  | cons entry rest ih =>
      obtain ⟨reader, known, reads⟩ := reads_constant (writable entry List.mem_cons_self)
      have following := ih fun other listed => writable other (List.mem_cons_of_mem entry listed)
      have tag : Reads u1 (encode 1 entry.tag.code) entry.tag.code :=
        reads_number (by cases entry.tag <;> decide)
      have wide := wideTag?_code entry
      rw [List.flatMap_cons, List.flatMap_cons, Entry.bytes, List.append_assoc]
      by_cases two : entry.isWide = true
      · rw [if_pos two] at wide
        rw [Entry.slots, if_pos two]
        show Reads (slots length (_ + 1 + 1)) _ _
        unfold slots
        refine tag.bind ?_
        rw [known, wide]
        exact reads.bind (following.map reads_pure)
      · rw [if_neg two] at wide
        rw [Entry.slots, if_neg two]
        show Reads (slots length (_ + 1)) _ _
        unfold slots
        refine tag.bind ?_
        rw [known, wide]
        exact reads.bind (following.map reads_pure)

theorem length_ofConstants (constants : List Entry) :
    (Pool.ofConstants constants).length = (constants.flatMap Entry.slots).length + 1 := by
  simp [Pool.ofConstants, Pool.length]

theorem reads_pool {constants : List Entry} (writable : ∀ entry ∈ constants, entry.Writable)
    (size : (Pool.ofConstants constants).length < 65536)
    (verified : (Pool.ofConstants constants).verify = .ok ()) :
    Reads pool (encode 2 (Pool.ofConstants constants).length ++ constants.flatMap Entry.bytes)
      (.ofConstants constants) := by
  refine (reads_u2 size).bind ?_
  dsimp only
  rw [length_ofConstants, if_neg (Nat.succ_ne_zero _), Nat.add_sub_cancel]
  refine (reads_pool_slots writable _).map ?_
  have same : Pool.mk (none :: constants.flatMap Entry.slots).toArray = .ofConstants constants := rfl
  rw [same, verified]
  exact reads_pure

end ClassFile.Reader

/-! ## References into the pool -/

namespace Pool

variable {pool : Pool}

theorem HasText.index_lt {text : PoolText} (has : pool.HasText text) : text.index < pool.length := by
  unfold HasText text? at has
  split at has
  · rename_i within
    simp only [isWithin, Bool.and_eq_true, decide_eq_true_eq] at within
    omega
  · cases has

theorem HasClass.index_lt {name : PoolText} (has : pool.HasClass name) :
    name.index < pool.length := by
  obtain ⟨_, refers, -⟩ := Option.bind_eq_some_iff.mp has.2
  obtain ⟨_, here, -⟩ := Option.bind_eq_some_iff.mp refers
  obtain ⟨_, found, -⟩ := Option.bind_eq_some_iff.mp here
  exact (Array.getElem?_eq_some_iff.mp found).1

end Pool

namespace ClassFile.Reader

variable {α σ : Type} {pool : Pool}

theorem reads_textAt {text : PoolText} (has : pool.HasText text) (what : String) :
    Reads (textAt pool what text.index) [] text.text := by
  unfold textAt
  rw [show pool.text? text.index = some text.text from has]
  exact reads_pure

theorem reads_classNameAt {name : PoolText} (has : pool.HasClass name) (what : String) :
    Reads (classNameAt pool what name.index) [] name.text := by
  unfold classNameAt
  rw [if_neg has.1]
  dsimp only
  rw [has.2]
  exact reads_pure

/-! ## Attributes -/

theorem length_le_of_mem (write : α → List UInt8) {items : List α} {item : α}
    (listed : item ∈ items) : (write item).length ≤ (counted write items).length := by
  obtain ⟨front, back, rfl⟩ := List.append_of_mem listed
  simp only [counted, List.flatMap_append, List.flatMap_cons, List.length_append]
  omega

theorem reads_attributeHeader {name : PoolText} (has : pool.HasText name)
    (size : pool.length < 65536) {length : Nat} (fits : length < 2 ^ 32) :
    Reads (attributeHeader pool) (encode 2 name.index ++ encode 4 length) ⟨name.text, length⟩ := by
  have index := has.index_lt
  refine (reads_u2 (by omega)).bind ?_
  refine Reads.before (reads_textAt has _) ?_
  exact (reads_number fits).map reads_pure

theorem reads_skipAttribute {content : List UInt8} (small : content.length < 2 ^ 31)
    (name : String) : Reads (skipAttribute ⟨name, content.length⟩) content () := by
  have length : signedLength content.length = content.length := signed_eq (by omega)
  unfold skipAttribute
  rw [length]
  exact reads_skip content

section Steps

variable {step : σ → Reader σ} {start : σ} {write : α → List UInt8} {value : α → σ}
  {items : List (Attribute α)}

/-- Attributes without a meaning leave what has been read as it is. -/
theorem reads_others (meaningless : items.filterMap Attribute.data? = [])
    (skips : ∀ item ∈ items, item.data? = none → ∀ state, Reads (step state) (item.bytes write) state)
    (state : σ) : Reads (iterate step items.length state) (items.flatMap (Attribute.bytes write)) state := by
  induction items with
  | nil => exact reads_pure
  | cons item rest ih =>
      rw [List.filterMap_eq_nil_iff] at meaningless
      rw [List.flatMap_cons]
      refine (skips item List.mem_cons_self (meaningless item List.mem_cons_self) state).bind ?_
      refine ih (List.filterMap_eq_nil_iff.mpr fun other listed => ?_) fun other listed => ?_
      · exact meaningless other (List.mem_cons_of_mem item listed)
      · exact skips other (List.mem_cons_of_mem item listed)

theorem reads_steps (single : (items.filterMap Attribute.data?).length ≤ 1)
    (skips : ∀ item ∈ items, item.data? = none → ∀ state, Reads (step state) (item.bytes write) state)
    (takes : ∀ item ∈ items, ∀ data, item.data? = some data →
      Reads (step start) (item.bytes write) (value data)) :
    Reads (iterate step items.length start) (items.flatMap (Attribute.bytes write))
      (((meaning? items).map value).getD start) := by
  induction items with
  | nil => exact reads_pure
  | cons item rest ih =>
      rw [List.flatMap_cons]
      have skips' := fun other listed => skips other (List.mem_cons_of_mem item listed)
      cases data : item.data? with
      | none =>
          rw [List.filterMap_cons_none data] at single
          rw [meaning?, List.filterMap_cons_none data]
          refine (skips item List.mem_cons_self data start).bind ?_
          exact ih single skips' fun other listed => takes other (List.mem_cons_of_mem item listed)
      | some found =>
          rw [List.filterMap_cons_some data] at single
          rw [meaning?, List.filterMap_cons_some data]
          refine (takes item List.mem_cons_self found data).bind ?_
          refine reads_others ?_ skips' (value found)
          exact List.length_eq_zero_iff.mp (Nat.le_zero.mp (Nat.le_of_succ_le_succ single))

end Steps

/-- Attributes are read one after the other, and the one with a meaning decides the answer. -/
theorem reads_attributes {step : σ → AttributeHeader → Reader σ} {start : σ}
    (write : α → List UInt8) (value : α → σ) {items : List (Attribute α)}
    {Recognised : String → Prop} {Holds : α → Prop}
    (valid : ValidAttributes pool Recognised Holds items) (size : pool.length < 65536)
    (small : (counted (Attribute.bytes write) items).length < 2 ^ 31)
    (skips : ∀ state name content, ¬ Recognised name → content.length < 2 ^ 31 →
      Reads (step state ⟨name, content.length⟩) content state)
    (takes : ∀ name data, Recognised name → Holds data → (write data).length < 2 ^ 31 →
      Reads (step start ⟨name, (write data).length⟩) (write data) (value data)) :
    Reads (attributes pool step start) (counted (Attribute.bytes write) items)
      (((meaning? items).map value).getD start) := by
  have header : ∀ item ∈ items, (item.content write).length < 2 ^ 31 ∧
      Reads (attributeHeader pool) (encode 2 item.name.index ++ encode 4 (item.content write).length)
        ⟨item.name.text, (item.content write).length⟩ := by
    intro item listed
    have within := length_le_of_mem (Attribute.bytes write) listed
    have length : (item.content write).length < 2 ^ 31 := by
      simp only [Attribute.bytes, List.length_append] at within
      omega
    exact ⟨length, reads_attributeHeader (valid.fits item listed).1 size (by omega)⟩
  refine (reads_u2 valid.count).bind (reads_steps valid.single ?_ ?_)
  · intro item listed meaningless state
    obtain ⟨length, reads⟩ := header item listed
    refine reads.bind ?_
    cases item with
    | known name data => cases meaningless
    | other name content => exact skips state _ content (valid.fits _ listed).2 length
  · intro item listed data known
    obtain ⟨length, reads⟩ := header item listed
    refine reads.bind ?_
    cases item with
    | other name content => cases known
    | known name found =>
        cases known
        obtain ⟨-, recognised, holds⟩ := valid.fits _ listed
        exact takes _ _ recognised holds length

/-! ## Fields -/

theorem reads_initialValue {name descriptor : String} {index : Nat}
    (holds : pool.isWithin index = true ∧ initialValueFits (pool.tagAt index) descriptor = true)
    (size : pool.length < 65536) :
    Reads (initialValue pool name descriptor (encode 2 index).length) (encode 2 index) index := by
  obtain ⟨within, fits⟩ := holds
  have small : index < 65536 := by
    simp only [Pool.isWithin, Bool.and_eq_true, decide_eq_true_eq] at within
    omega
  unfold initialValue
  rw [BigEndian.length_encode]
  refine (reads_u2 small).map ?_
  simp only [within, fits, not_true_eq_false, if_false]
  exact reads_pure

theorem reads_field {field : WrittenField} (valid : field.Valid pool) (size : pool.length < 65536)
    (small : field.bytes.length < 2 ^ 31) (owner : String) :
    Reads (Reader.field pool owner) field.bytes field.toField := by
  have name := valid.name.index_lt
  have descriptor := valid.descriptor.index_lt
  unfold WrittenField.bytes at small ⊢
  simp only [List.append_assoc, List.length_append] at small ⊢
  refine (reads_word field.flags).bind ((reads_u2 (by omega)).bind ((reads_u2 (by omega)).bind ?_))
  refine Reads.before (reads_textAt valid.name _) ?_
  refine Reads.before (reads_textAt valid.descriptor _) ?_
  simp only [valid.spells, not_true_eq_false, if_false]
  refine Reads.map (reads_attributes (encode 2) id valid.attributes size
    (by omega) ?_ ?_) ?_
  · intro index name content unrecognised short
    split
    · exact absurd ‹_› unrecognised
    · exact (reads_skipAttribute short name).map reads_pure
  · intro name index recognised holds _
    split
    · exact reads_initialValue holds size
    · exact absurd recognised ‹_›
  · rw [Option.map_id]
    exact reads_pure

/-! ## Methods -/

theorem reads_exceptionRange {range : ExceptionRange}
    (fits : range.start < 65536 ∧ range.stop < 65536 ∧ range.handler < 65536 ∧
      range.catchType < 65536) : Reads exceptionRange (exceptionBytes range) range := by
  obtain ⟨start, stop, handler, catchType⟩ := fits
  unfold exceptionBytes
  simp only [List.append_assoc]
  exact (reads_u2 start).bind ((reads_u2 stop).bind ((reads_u2 handler).bind
    ((reads_u2 catchType).map reads_pure)))

theorem reads_lineEntry {entry : LineEntry} (fits : entry.start < 65536 ∧ entry.line < 65536) :
    Reads lineEntry (lineBytes entry) entry :=
  (reads_u2 fits.1).bind ((reads_u2 fits.2).map reads_pure)

theorem length_lineTable (lines : List LineEntry) :
    (counted lineBytes lines).length = 2 + 4 * lines.length := by
  have each : (lines.flatMap lineBytes).length = 4 * lines.length := by
    induction lines with
    | nil => rfl
    | cons entry rest ih =>
        simp only [List.flatMap_cons, List.length_append, ih, lineBytes, BigEndian.length_encode,
          List.length_cons]
        omega
  rw [counted, List.length_append, each, BigEndian.length_encode]

theorem reads_lineTable {lines : List LineEntry} (count : lines.length < 65536)
    (fits : ∀ entry ∈ lines, entry.start < 65536 ∧ entry.line < 65536) :
    Reads (lineTable (counted lineBytes lines).length) (counted lineBytes lines) lines := by
  refine (reads_u2 count).bind ?_
  rw [if_neg (not_not_intro (length_lineTable lines))]
  have reads := reads_many id fun entry listed => reads_lineEntry (fits entry listed)
  rwa [List.map_id] at reads

theorem reads_body {body : WrittenBody} (valid : body.Valid pool) (size : pool.length < 65536)
    (small : body.bytes.length < 2 ^ 31) :
    Reads (Reader.body pool body.bytes.length) body.bytes body.toBody := by
  rw [body_eq_measured]
  refine Reads.measured ?_
  have code := valid.code
  unfold WrittenBody.bytes at small ⊢
  simp only [List.append_assoc, List.length_append] at small ⊢
  refine (reads_word body.maxStack).bind ((reads_word body.maxLocals).bind
    ((reads_number (by omega)).bind ?_))
  rw [if_neg (by omega)]
  refine (reads_take body.code).bind ?_
  rw [counted, List.append_assoc]
  refine (reads_u2 valid.exceptionCount).bind ?_
  refine (reads_many id fun range listed =>
    reads_exceptionRange (valid.exceptions range listed)).bind ?_
  refine Reads.map (reads_attributes (counted lineBytes) id valid.attributes size
    (by omega) ?_ ?_) ?_
  · intro lines name content unrecognised short
    rw [bodyAttribute, if_neg fun named => unrecognised named.1]
    exact (reads_skipAttribute short name).map reads_pure
  · intro name lines recognised holds _
    rw [bodyAttribute, if_pos ⟨recognised, rfl⟩]
    exact reads_lineTable holds.1 holds.2
  · rw [Option.map_id, List.map_id]
    exact reads_pure

theorem reads_requireBody {method : WrittenMethod} (valid : method.Valid pool) :
    Reads (requireBody method.name.text method.descriptor.text method.access
      ((meaning? method.attributes).map WrittenBody.toBody)) [] method.toMethod.body := by
  have bodied := valid.bodied
  have bodiless : (method.access.isNative || method.access.isAbstract) = true ↔
      method.access.isNative = true ∨ method.access.isAbstract = true := by
    rw [Bool.or_eq_true]
  unfold requireBody WrittenMethod.toMethod
  dsimp only
  cases found : meaning? method.attributes with
  | none =>
      rw [found] at bodied
      have without : (method.access.isNative || method.access.isAbstract) = true := by
        rw [bodiless]
        by_contra neither
        exact absurd (bodied.mpr neither) (by simp)
      simp only [Option.map_none, without, if_true]
      exact reads_pure
  | some body =>
      rw [found] at bodied
      have within : ¬ (method.access.isNative || method.access.isAbstract) = true := by
        rw [bodiless]
        exact bodied.mp rfl
      simp only [Option.map_some, within]
      exact reads_pure

theorem ofDescriptor_toMethod {method : WrittenMethod} (valid : method.Valid pool) :
    Method.ofDescriptor method.name method.descriptor method.access method.toMethod.body =
      .ok method.toMethod := by
  have found : (Descriptor.paramSlots? method.descriptor.text).isSome = true := by
    unfold Descriptor.paramSlots?
    rw [Option.isSome_map]
    exact valid.spells
  obtain ⟨slots, spelled⟩ := Option.isSome_iff_exists.mp found
  unfold Method.ofDescriptor WrittenMethod.toMethod WrittenMethod.argumentSlots
  rw [spelled]
  rfl

/-- A method with code has room for its arguments. -/
theorem argSlots_le {method : WrittenMethod} (valid : method.Valid pool)
    (bodied : method.toMethod.hasCode = true) :
    method.toMethod.argSlots ≤ method.toMethod.body.maxLocals := by
  unfold Method.hasCode Method.codeSize at bodied
  unfold WrittenMethod.toMethod at bodied ⊢
  cases found : meaning? method.attributes with
  | none =>
      rw [found] at bodied
      cases bodied
  | some body => exact (Nat.mod_le _ _).trans (valid.room body found)

theorem getD_map_some {body? : Option WrittenBody} :
    (body?.map fun body => some body.toBody).getD none = body?.map WrittenBody.toBody := by
  cases body? <;> rfl

theorem reads_method {method : WrittenMethod} (valid : method.Valid pool)
    (size : pool.length < 65536) (small : method.bytes.length < 2 ^ 31) (owner : String) :
    Reads (Reader.method pool owner) method.bytes method.toMethod := by
  have name := valid.name.index_lt
  have descriptor := valid.descriptor.index_lt
  unfold WrittenMethod.bytes at small ⊢
  simp only [List.append_assoc, List.length_append] at small ⊢
  refine (reads_word method.flags).bind ((reads_u2 (by omega)).bind ((reads_u2 (by omega)).bind ?_))
  refine Reads.before (reads_textAt valid.name _) ?_
  refine Reads.before (reads_textAt valid.descriptor _) ?_
  simp only [valid.spells, not_true_eq_false, if_false]
  refine Reads.map (reads_attributes WrittenBody.bytes
    (fun body => some body.toBody) valid.attributes size (by omega) ?_ ?_) ?_
  · intro found name content unrecognised short
    rw [methodAttribute, if_neg unrecognised]
    exact (reads_skipAttribute short name).map reads_pure
  · intro name body recognised holds short
    rw [methodAttribute, if_pos recognised]
    exact (reads_body holds size short).map reads_pure
  · rw [getD_map_some]
    refine Reads.before (reads_requireBody valid) ?_
    have made : Method.ofDescriptor ⟨method.name.index, method.name.text⟩
        ⟨method.descriptor.index, method.descriptor.text⟩
        (AccessFlags.ofNat method.flags.toNat).written method.toMethod.body = .ok method.toMethod :=
      ofDescriptor_toMethod valid
    have roomy : ¬ (method.toMethod.hasCode = true ∧
        method.toMethod.body.maxLocals < method.toMethod.argSlots) :=
      fun tight => Nat.not_lt.mpr (argSlots_le valid tight.1) tight.2
    rw [made]
    dsimp only
    rw [if_neg roomy]
    exact reads_pure

/-! ## Classes -/

theorem reads_version {minor major : UInt16}
    (known : oldestMajor ≤ major.toNat ∧ major.toNat ≤ newestMajor) :
    Reads version (encode 4 magic ++ (encode 2 minor.toNat ++ encode 2 major.toNat))
      ⟨major.toNat, minor.toNat⟩ := by
  refine (reads_number (by decide)).bind ?_
  rw [if_neg (not_not_intro rfl)]
  refine (reads_word minor).bind ((reads_word major).map ?_)
  rw [if_neg (by omega)]
  exact reads_pure

theorem reads_classFlags {flags : UInt16}
    (access : (AccessFlags.ofNat flags.toNat).isInterface = true →
      (AccessFlags.ofNat flags.toNat).isAbstract = true) :
    Reads classFlags (encode 2 flags.toNat) (AccessFlags.ofNat flags.toNat).written := by
  refine (reads_word flags).map ?_
  rw [if_neg fun both => both.2 (access both.1)]
  exact reads_pure

/-- A class constant after its slot. -/
theorem reads_className {name : PoolText} (has : pool.HasClass name) (size : pool.length < 65536)
    (what : String) :
    Reads (do classNameAt pool what (← u2)) (encode 2 name.index) name.text := by
  have index := has.index_lt
  exact (reads_u2 (by omega)).map (reads_classNameAt has what)

theorem reads_superName {file : WrittenClass} (valid : file.Valid) :
    Reads (superName file.pool file.name.text) (encode 2 file.superIndex)
      (file.super.map PoolText.text) := by
  unfold WrittenClass.superIndex
  cases above : file.super with
  | none =>
      refine (reads_u2 (n := 0) (by decide)).map ?_
      rw [if_pos rfl, if_pos (valid.root above)]
      exact reads_pure
  | some name =>
      have has := valid.super name above
      have index := has.index_lt
      have size := valid.poolSize
      refine (reads_u2 (n := name.index) (by omega)).map ?_
      rw [if_neg has.1]
      exact (reads_classNameAt has _).map reads_pure

theorem reads_classAttributes {file : WrittenClass} (valid : file.Valid) :
    Reads (attributes file.pool (classAttribute file.pool) 0)
      (counted (Attribute.bytes WrittenClass.indexBytes) file.attributes)
      file.toClass.sourceIndex := by
  have size := valid.poolSize
  have small := valid.size
  unfold WrittenClass.bytes at small
  simp only [List.length_append] at small
  refine reads_attributes WrittenClass.indexBytes PoolText.index valid.attributes size (by omega) ?_ ?_
  · intro index name content unrecognised short
    rw [classAttribute, if_neg unrecognised]
    exact (reads_skipAttribute short name).map reads_pure
  · intro name text recognised has _
    have index := has.index_lt
    have length : (WrittenClass.indexBytes text).length = 2 := BigEndian.length_encode 2 _
    rw [classAttribute, if_pos recognised]
    dsimp only
    rw [if_neg (not_not_intro length)]
    exact (reads_u2 (by omega)).map ((reads_textAt has _).map reads_pure)

theorem reads_contents {file : WrittenClass} (valid : file.Valid) :
    Reads contents file.bytes file.toClass := by
  have size := valid.poolSize
  have small := valid.size
  have members {α : Type} {write : α → List UInt8} {items : List α} {item : α}
      (part : (counted write items).length < 2 ^ 31) (listed : item ∈ items) :
      (write item).length < 2 ^ 31 := (length_le_of_mem write listed).trans_lt part
  have name := valid.name.index_lt
  have layout : file.bytes =
      (encode 4 magic ++ (encode 2 file.minor.toNat ++ encode 2 file.major.toNat)) ++
        ((encode 2 file.pool.length ++ file.constants.flatMap Pool.Entry.bytes) ++
          (encode 2 file.flags.toNat ++ (encode 2 file.name.index ++ (encode 2 file.superIndex ++
            (counted WrittenClass.indexBytes file.interfaces ++
              (counted WrittenField.bytes file.fields ++
                (counted WrittenMethod.bytes file.methods ++
                  counted (Attribute.bytes WrittenClass.indexBytes) file.attributes))))))) := by
    simp only [WrittenClass.bytes, List.append_assoc]
  rw [layout] at small ⊢
  simp only [List.length_append] at small
  refine (reads_version valid.version).bind ?_
  refine (reads_pool valid.constants size valid.verified).bind ?_
  refine (reads_classFlags valid.access).bind ?_
  refine (reads_u2 (by omega)).bind (Reads.before (reads_classNameAt valid.name _) ?_)
  refine (reads_superName valid).bind ?_
  rw [counted, List.append_assoc]
  refine (reads_u2 valid.interfaceCount).bind ?_
  refine (reads_many PoolText.text fun item listed =>
    reads_className (valid.interfaces item listed) size _).bind ?_
  rw [counted, List.append_assoc]
  refine (reads_u2 valid.fieldCount).bind ?_
  refine (reads_many WrittenField.toField fun item listed =>
    reads_field (valid.fields item listed) size (members (by omega) listed) _).bind ?_
  rw [counted, List.append_assoc]
  refine (reads_u2 valid.methodCount).bind ?_
  refine (reads_many WrittenMethod.toMethod fun item listed =>
    reads_method (valid.methods item listed) size (members (by omega) listed) _).bind ?_
  exact (reads_classAttributes valid).map reads_pure

end ClassFile.Reader

namespace Class

open ClassFile

/-- **Reading inverts writing.** A valid class file is accepted wherever it comes from, and gives
the class that it declares. -/
theorem ofBytes_bytes (source : String) {file : WrittenClass} (valid : file.Valid) :
    Class.ofBytes source file.bytes = .ok file.toClass :=
  ofBytes_eq_ok.mpr (Reader.reads_contents valid)

theorem ofBytes_bytes_counter :
    counter.Valid ∧ Class.ofBytes "Counter" counter.bytes = .ok counter.toClass :=
  have valid : counter.Valid :=
    { size := by decide +kernel
      version := by decide
      constants := by decide +kernel
      poolSize := by decide
      verified := by decide +kernel
      access := by decide
      name := by decide +kernel
      super := by decide +kernel
      root := nofun
      interfaceCount := by decide
      interfaces := nofun
      fieldCount := by decide
      fields := by decide +kernel
      methodCount := by decide
      methods := by decide +kernel
      attributes := by decide +kernel }
  ⟨valid, ofBytes_bytes "Counter" valid⟩

end Class

end Jvm
