/-
# Jvm.Proofs.Frame.Operands — the bytes that an instruction reads

An instruction is measured first and then decoded, and the two compute where its operands are
on their own. Decoding never reads a byte behind the measured end: codes that agree from the
opcode up to that end (`Code.Agree`) have the same instruction there (`Instr.decode_congr`),
also if it is a switch with a table, and it has the same length (`Code.Agree.declaredLength?`).
-/
import Mathlib.Tactic.SplitIfs
import Jvm.Instr

namespace Jvm

set_option autoImplicit false

namespace Code

/-- The codes have the same bytes from `start` up to `stop`. -/
def Agree (start stop : Nat) (code other : Code) : Prop :=
  ∀ index, start ≤ index → index < stop → other[index]? = code[index]?

theorem byteAt_of_getElem? {code : Code} {index : Nat} {byte : UInt8}
    (present : code[index]? = some byte) : code.byteAt index = byte := by
  rw [byteAt, Array.getD_eq_getD_getElem?, present, Option.getD_some]

theorem unsignedAt_one {code : Code} {index : Nat} {byte : UInt8}
    (present : code[index]? = some byte) : code.unsignedAt 1 index = byte.toNat := by
  unfold unsignedAt
  rw [← byteAt_of_getElem? present]
  show 0 * 256 + _ = _
  rw [Nat.zero_mul, Nat.zero_add]
  rfl

theorem signedAt_one {code : Code} {index : Nat} {byte : UInt8}
    (present : code[index]? = some byte) : code.signedAt 1 index = byte.toInt8.toInt := by
  unfold signedAt
  rw [unsignedAt_one present]
  exact (BitVec.toInt_eq_toNat_cond byte.toBitVec).symm

section Agree

variable {start stop : Nat} {code other : Code}

theorem Agree.byteAt (agree : Agree start stop code other) {index : Nat} (above : start ≤ index)
    (below : index < stop) : other.byteAt index = code.byteAt index := by
  unfold Code.byteAt
  rw [Array.getD_eq_getD_getElem?, Array.getD_eq_getD_getElem?, agree index above below]

theorem Agree.unsignedAt (agree : Agree start stop code other) {width index : Nat}
    (above : start ≤ index) (below : index + width ≤ stop) :
    other.unsignedAt width index = code.unsignedAt width index := by
  unfold Code.unsignedAt
  congr 1
  apply List.map_congr_left
  intro offset member
  have within := List.mem_range.mp member
  exact agree.byteAt (by omega) (by omega)

theorem Agree.signedAt (agree : Agree start stop code other) {width index : Nat}
    (above : start ≤ index) (below : index + width ≤ stop) :
    other.signedAt width index = code.signedAt width index := by
  unfold Code.signedAt
  rw [agree.unsignedAt above below]

/-- A code that agrees with another up to a place inside of it reaches that place. -/
theorem Agree.le_size (agree : Agree start stop code other) (some : start < stop)
    (inside : stop ≤ code.size) : stop ≤ other.size := by
  have last : other[stop - 1]? = code[stop - 1]? := agree _ (by omega) (by omega)
  rw [Array.getElem?_eq_getElem (show stop - 1 < code.size by omega)] at last
  have present := (Array.getElem?_eq_some_iff.mp last).1
  omega

end Agree

theorem le_switchBase (bci : Nat) : bci + 1 ≤ switchBase bci := by
  unfold switchBase alignUp4
  omega

/-- The length of an instruction as its opcode and operands give it, whether or not it fits. -/
def declaredLength? (code : Code) (size bci : Nat) : Option Nat :=
  match Opcode.length? (code.byteAt bci).toNat with
  | some 0 => variableLength? code size bci
  | length? => length?

theorem instructionLength?_eq_some {code : Code} {size bci length : Nat} :
    code.instructionLength? size bci = some length ↔
      bci < size ∧ code.declaredLength? size bci = some length ∧ bci + length ≤ size := by
  unfold instructionLength? declaredLength?
  split
  · rename_i outside
    constructor
    · intro none
      cases none
    · rintro ⟨inside, -⟩
      omega
  · rename_i inside
    have within : bci < size := by omega
    dsimp only
    rw [Int.toNat_natCast]
    generalize Opcode.length? (code.byteAt bci).toNat = length?
    constructor
    · intro measured
      obtain ⟨declared, fits⟩ := Option.filter_eq_some_iff.mp measured
      exact ⟨within, declared, of_decide_eq_true fits⟩
    · rintro ⟨-, declared, fits⟩
      exact Option.filter_eq_some_iff.mpr ⟨declared, decide_eq_true fits⟩

theorem instructionLength?_of_fixed {code : Code} {bci length : Nat} {byte : UInt8}
    (present : code[bci]? = some byte) (fixed : Opcode.length? byte.toNat = some (length + 1))
    (fits : bci + (length + 1) ≤ code.size) :
    code.instructionLength? code.size bci = some (length + 1) := by
  refine instructionLength?_eq_some.mpr ⟨by omega, ?_, fits⟩
  unfold declaredLength?
  rw [byteAt_of_getElem? present, fixed]
  rfl

theorem tableSwitchLength?_eq_some {code : Code} {size bci length : Nat} :
    code.tableSwitchLength? size bci = some length ↔
      switchBase bci + 12 ≤ size ∧
        code.signedAt 4 (switchBase bci + 4) ≤ code.signedAt 4 (switchBase bci + 8) ∧
          length = switchBase bci - bci + 12 + 4 * (code.signedAt 4 (switchBase bci + 8) -
            code.signedAt 4 (switchBase bci + 4) + 1).toNat := by
  unfold tableSwitchLength?
  dsimp only
  split
  · refine iff_of_false (by simp) ?_
    omega
  · split
    · refine iff_of_false (by simp) ?_
      omega
    · rw [Option.some.injEq]
      constructor
      · intro same
        exact ⟨by omega, by omega, same.symm⟩
      · intro ⟨_, _, same⟩
        exact same.symm

theorem lookupSwitchLength?_eq_some {code : Code} {size bci length : Nat} :
    code.lookupSwitchLength? size bci = some length ↔
      switchBase bci + 8 ≤ size ∧ 0 ≤ code.signedAt 4 (switchBase bci + 4) ∧
        length = switchBase bci - bci + 8 +
          8 * (code.signedAt 4 (switchBase bci + 4)).toNat := by
  unfold lookupSwitchLength?
  dsimp only
  split
  · refine iff_of_false (by simp) ?_
    omega
  · split
    · refine iff_of_false (by simp) ?_
      omega
    · rw [Option.some.injEq]
      constructor
      · intro same
        exact ⟨by omega, by omega, same.symm⟩
      · intro ⟨_, _, same⟩
        exact same.symm

end Code

namespace Opcode

/-- How many bytes behind an opcode that is not a switch hold operands. -/
def operandWidth (op : Nat) : Nat :=
  if op = 0x10 ∨ op = 0x12 ∨ 0x15 ≤ op ∧ op ≤ 0x19 ∨ 0x36 ≤ op ∧ op ≤ 0x3a then 1
  else if op = 0x11 ∨ op = 0x13 ∨ op = 0x14 ∨ op = 0x84 ∨ 0x99 ≤ op ∧ op ≤ 0xa7 ∨
      0xb2 ≤ op ∧ op ≤ 0xb9 ∨ op = 0xbb ∨ op = 0xc6 ∨ op = 0xc7 then 2
  else if op = 0xc8 then 4
  else 0

/-- An executable instruction that is not a switch is longer than its operands, and only the
switches have no length of their own. -/
theorem operandWidth_lt {op : Nat} (byte : op < 256) (executable : isExecutable op = true)
    (table : op ≠ 0xaa) (lookup : op ≠ 0xab) :
    ∃ length, length? op = some length ∧ length ≠ 0 ∧ operandWidth op < length := by
  have bounded : ∀ op : Nat, op < 256 → isExecutable op = true → op ≠ 0xaa → op ≠ 0xab →
      (length? op).any (fun length => length ≠ 0 ∧ operandWidth op < length) = true := by
    decide +kernel
  simpa only [decide_eq_true_eq] using
    (Option.any_eq_true _ _).mp (bounded op byte executable table lookup)

theorem length?_switch {op : Nat} (switch : op = 0xaa ∨ op = 0xab) : length? op = some 0 := by
  rcases switch with rfl | rfl <;> decide +kernel

theorem one_le_operandWidth {op : Nat}
    (reads : op = 0x10 ∨ op = 0x12 ∨ 0x15 ≤ op ∧ op ≤ 0x19 ∨ 0x36 ≤ op ∧ op ≤ 0x3a) :
    1 ≤ operandWidth op := by
  unfold operandWidth
  exact Nat.le_of_eq (if_pos reads).symm

theorem two_le_operandWidth {op : Nat}
    (reads : op = 0x11 ∨ op = 0x13 ∨ op = 0x14 ∨ op = 0x84 ∨ 0x99 ≤ op ∧ op ≤ 0xa7 ∨
      0xb2 ≤ op ∧ op ≤ 0xb9 ∨ op = 0xbb ∨ op = 0xc6 ∨ op = 0xc7) : 2 ≤ operandWidth op := by
  have other : ¬ (op = 0x10 ∨ op = 0x12 ∨ 0x15 ≤ op ∧ op ≤ 0x19 ∨ 0x36 ≤ op ∧ op ≤ 0x3a) := by
    omega
  unfold operandWidth
  exact Nat.le_of_eq ((if_neg other).trans (if_pos reads)).symm

theorem isExecutable_iff {op : Nat} : isExecutable op = true ↔
    op ≤ 0x2d ∨ 0x36 ≤ op ∧ op ≤ 0x4e ∨ 0x57 ≤ op ∧ op ≤ 0xa7 ∨ 0xaa ≤ op ∧ op ≤ 0xb9 ∨
      op = 0xbb ∨ 0xc6 ≤ op ∧ op ≤ 0xc8 := by
  unfold isExecutable within
  simp only [Bool.or_eq_true, Bool.and_eq_true, decide_eq_true_eq, beq_iff_eq]
  omega

end Opcode

namespace Code

/-- How the length of an executable instruction comes about. -/
inductive Measured (code : Code) (size bci length : Nat) : Prop
  | table (op : (code.byteAt bci).toNat = 0xaa)
      (measured : code.tableSwitchLength? size bci = some length) : Measured code size bci length
  | lookup (op : (code.byteAt bci).toNat = 0xab)
      (measured : code.lookupSwitchLength? size bci = some length) : Measured code size bci length
  | fixed (notTable : (code.byteAt bci).toNat ≠ 0xaa) (notLookup : (code.byteAt bci).toNat ≠ 0xab)
      (measured : Opcode.length? (code.byteAt bci).toNat = some length) (some : length ≠ 0)
      (operands : Opcode.operandWidth (code.byteAt bci).toNat < length) :
      Measured code size bci length

theorem measured_of_declared {code : Code} {size bci length : Nat}
    (executable : Opcode.isExecutable (code.byteAt bci).toNat = true)
    (declared : code.declaredLength? size bci = some length) : Measured code size bci length := by
  unfold declaredLength? at declared
  by_cases table : (code.byteAt bci).toNat = 0xaa
  · rw [Opcode.length?_switch (.inl table)] at declared
    refine .table table ?_
    simpa only [variableLength?, table] using declared
  · by_cases lookup : (code.byteAt bci).toNat = 0xab
    · rw [Opcode.length?_switch (.inr lookup)] at declared
      refine .lookup lookup ?_
      simpa only [variableLength?, lookup] using declared
    · obtain ⟨own, fixed, some, operands⟩ :=
        Opcode.operandWidth_lt (code.byteAt bci).toNat_lt executable table lookup
      rw [fixed] at declared
      split at declared
      · rename_i zero
        exact absurd (Option.some.inj zero) some
      · obtain rfl := Option.some.inj declared
        exact .fixed table lookup fixed some operands

theorem Measured.pos {code : Code} {size bci length : Nat} (measured : Measured code size bci length) :
    0 < length := by
  have base := le_switchBase bci
  cases measured with
  | table op measured =>
      obtain ⟨-, -, rfl⟩ := tableSwitchLength?_eq_some.mp measured
      omega
  | lookup op measured =>
      obtain ⟨-, -, rfl⟩ := lookupSwitchLength?_eq_some.mp measured
      omega
  | fixed _ _ _ some _ => exact Nat.pos_of_ne_zero some

/-- The words of a switch are after its padding. -/
theorem Agree.switchWord {code other : Code} {bci stop : Nat} (agree : Agree bci stop code other)
    (offset : Nat) (reads : switchBase bci + offset + 4 ≤ stop) :
    other.signedAt 4 (switchBase bci + offset) = code.signedAt 4 (switchBase bci + offset) :=
  agree.signedAt (Nat.le_trans (Nat.le_of_succ_le (le_switchBase bci)) (Nat.le_add_right _ _)) reads

/-- An instruction is measured by its own bytes alone, as long as the code reaches its end. -/
theorem Agree.declaredLength? {code other : Code} {size bci extent : Nat}
    (agree : Agree bci (bci + extent) code other) (fits : bci + extent ≤ size)
    (measured : Measured code code.size bci extent) :
    other.declaredLength? size bci = some extent := by
  have base := le_switchBase bci
  have byte := agree.byteAt (Nat.le_refl bci) (Nat.lt_add_of_pos_right measured.pos)
  unfold Code.declaredLength?
  rw [byte]
  cases measured with
  | table op measured =>
      obtain ⟨-, ordered, length⟩ := tableSwitchLength?_eq_some.mp measured
      have low := agree.switchWord 4 (by omega)
      have high := agree.switchWord 8 (by omega)
      have same : other.tableSwitchLength? size bci = some extent :=
        tableSwitchLength?_eq_some.mpr ⟨by omega, by rwa [low, high],
          by rwa [low, high]⟩
      rw [Opcode.length?_switch (.inl op)]
      simpa only [variableLength?, byte, op] using same
  | lookup op measured =>
      obtain ⟨-, natural, length⟩ := lookupSwitchLength?_eq_some.mp measured
      have count := agree.switchWord 4 (by omega)
      have same : other.lookupSwitchLength? size bci = some extent :=
        lookupSwitchLength?_eq_some.mpr ⟨by omega, by rwa [count],
          by rwa [count]⟩
      rw [Opcode.length?_switch (.inr op)]
      simpa only [variableLength?, byte, op] using same
  | fixed _ _ measured some _ =>
      rw [measured]
      split
      · rename_i zero
        exact absurd (Option.some.inj zero) some
      · rfl

end Code

namespace Instr

open Code Opcode

section Operands

variable {bci stop : Nat} {code other : Code}

theorem slotAt_congr (agree : Agree bci stop code other) (reads : bci + 2 ≤ stop) :
    slotAt other bci = slotAt code bci :=
  agree.unsignedAt (by omega) reads

theorem indexAt_congr (agree : Agree bci stop code other) (reads : bci + 3 ≤ stop) :
    indexAt other bci = indexAt code bci :=
  agree.unsignedAt (by omega) reads

theorem offsetAt_congr (agree : Agree bci stop code other) (reads : bci + 3 ≤ stop) :
    offsetAt other bci = offsetAt code bci :=
  agree.signedAt (by omega) reads

/-- The table of a switch ends where its length says, wherever the padding puts it. -/
theorem tableSwitch_congr (agree : Agree bci stop code other)
    (reads : switchBase bci + 12 + 4 * (code.signedAt 4 (switchBase bci + 8) -
      code.signedAt 4 (switchBase bci + 4) + 1).toNat ≤ stop) :
    tableSwitch other bci = tableSwitch code bci := by
  have base := le_switchBase bci
  have fallback : other.signedAt 4 (switchBase bci) = code.signedAt 4 (switchBase bci) :=
    agree.switchWord 0 (by omega)
  have low := agree.switchWord 4 (by omega)
  have high := agree.switchWord 8 (by omega)
  unfold tableSwitch
  dsimp only
  rw [fallback, low, high]
  refine congrArg (LocalInstr.tableSwitch _ _ _) (List.map_congr_left ?_)
  intro entry member
  have within := List.mem_range.mp member
  exact agree.signedAt (by omega) (by omega)

theorem lookupSwitch_congr (agree : Agree bci stop code other)
    (reads : switchBase bci + 8 + 8 * (code.signedAt 4 (switchBase bci + 4)).toNat ≤ stop) :
    lookupSwitch other bci = lookupSwitch code bci := by
  have base := le_switchBase bci
  have fallback : other.signedAt 4 (switchBase bci) = code.signedAt 4 (switchBase bci) :=
    agree.switchWord 0 (by omega)
  have count := agree.switchWord 4 (by omega)
  unfold lookupSwitch
  dsimp only
  rw [fallback, count]
  refine congrArg (LocalInstr.lookupSwitch _) (List.map_congr_left ?_)
  intro pair member
  have within := List.mem_range.mp member
  have key : other.signedAt 4 (switchBase bci + 8 + 8 * pair) =
      code.signedAt 4 (switchBase bci + 8 + 8 * pair) := agree.signedAt (by omega) (by omega)
  have offset : other.signedAt 4 (switchBase bci + 12 + 8 * pair) =
      code.signedAt 4 (switchBase bci + 12 + 8 * pair) := agree.signedAt (by omega) (by omega)
  rw [key, offset]

/-- The instructions that need only their frame and are not switches. -/
theorem decodeLocal_congr
    (agree : Agree bci (bci + 1 + operandWidth (code.byteAt bci).toNat) code other)
    (executable : isExecutable (code.byteAt bci).toNat = true)
    (table : (code.byteAt bci).toNat ≠ 0xaa) (lookup : (code.byteAt bci).toNat ≠ 0xab)
    (own : ¬ (0xac ≤ (code.byteAt bci).toNat ∧ (code.byteAt bci).toNat ≤ 0xbb)) :
    decodeLocal other bci = decodeLocal code bci := by
  have byte : other.byteAt bci = code.byteAt bci := agree.byteAt (by omega) (by omega)
  rw [isExecutable_iff] at executable
  unfold decodeLocal
  rw [byte]
  generalize (code.byteAt bci).toNat = op at *
  have kinds : op ≤ 0xa7 ∨ 0xaa ≤ op ∧ op ≤ 0xab ∨ 0xc6 ≤ op ∧ op ≤ 0xc8 := by omega
  have stores (past : ¬ op ≤ 0x2d) (store : op ≤ 0x3a) : 0x36 ≤ op := by omega
  clear executable own
  have one := @one_le_operandWidth op
  have two := @two_le_operandWidth op
  have slot (reads : 0x12 ≤ op ∧ op ≤ 0x19 ∨ 0x36 ≤ op ∧ op ≤ 0x3a ∨ op = 0x84) :
      slotAt other bci = slotAt code bci := slotAt_congr agree (by omega)
  have offset (reads : 0x99 ≤ op ∧ op ≤ 0xa7 ∨ op = 0xc6 ∨ op = 0xc7) :
      offsetAt other bci = offsetAt code bci := offsetAt_congr agree (by omega)
  have byteOperand (reads : op = 0x10) : other.signedAt 1 (bci + 1) = code.signedAt 1 (bci + 1) :=
    agree.signedAt (by omega) (by omega)
  have short (reads : op = 0x11) : other.signedAt 2 (bci + 1) = code.signedAt 2 (bci + 1) :=
    agree.signedAt (by omega) (by omega)
  have delta (reads : op = 0x84) : other.signedAt 1 (bci + 2) = code.signedAt 1 (bci + 2) :=
    agree.signedAt (by omega) (by omega)
  clear one two
  dsimp only
  -- the branches follow each other as in the definition; those without operands are the same
  repeat' first
    | refine ite_congr rfl (fun _ => ?_) fun _ => ?_
    | with_reducible rfl
  · rw [byteOperand (by omega)]
  · rw [short (by omega)]
  · rw [slot (by omega)]
  · rw [slot (.inr (.inl ⟨stores ‹_› ‹_›, ‹_›⟩))]
  · rw [slot (by omega), delta (by omega)]
  · rw [offset (by omega)]
  · rw [offset (by omega)]
  · rw [offset (by omega)]
  · rw [offset (by omega)]
  · exact absurd ‹op = 0xaa› table
  · exact absurd ‹op = 0xab› lookup
  · rw [offset (by omega)]
  · rw [offset (by omega)]
  · obtain rfl : op = 0xc8 := by omega
    have wide : operandWidth 0xc8 = 4 := by decide
    rw [agree.signedAt (by omega) (by omega)]

theorem decode_congr_fixed
    (agree : Agree bci (bci + 1 + operandWidth (code.byteAt bci).toNat) code other)
    (executable : isExecutable (code.byteAt bci).toNat = true)
    (table : (code.byteAt bci).toNat ≠ 0xaa) (lookup : (code.byteAt bci).toNat ≠ 0xab) :
    decode other bci = decode code bci := by
  have byte : other.byteAt bci = code.byteAt bci := agree.byteAt (by omega) (by omega)
  have inFrame := decodeLocal_congr agree executable table lookup
  rw [isExecutable_iff] at executable
  unfold decode
  rw [byte]
  generalize (code.byteAt bci).toNat = op at *
  have one := @one_le_operandWidth op
  have two := @two_le_operandWidth op
  have constant (reads : op = 0x12) : other.unsignedAt 1 (bci + 1) = code.unsignedAt 1 (bci + 1) :=
    agree.unsignedAt (by omega) (by omega)
  have index (reads : op = 0x13 ∨ op = 0x14 ∨ 0xb2 ≤ op ∧ op ≤ 0xb9 ∨ op = 0xbb) :
      indexAt other bci = indexAt code bci := indexAt_congr agree (by omega)
  clear one two
  split
  · rw [constant rfl]
  all_goals first
    | with_reducible rfl
    | rw [index (by decide)]
    | skip
  simp only [imp_false] at *
  rw [inFrame (by omega)]

theorem decode_table (op : (code.byteAt bci).toNat = 0xaa) :
    decode code bci = .inFrame (tableSwitch code bci) := by
  simp [decode, decodeLocal, op]

theorem decode_lookup (op : (code.byteAt bci).toNat = 0xab) :
    decode code bci = .inFrame (lookupSwitch code bci) := by
  simp [decode, decodeLocal, op]

end Operands

/-- Decoding reads nothing behind the measured end of the instruction. -/
theorem decode_congr {code other : Code} {bci length : Nat}
    (agree : Agree bci (bci + length) code other)
    (executable : isExecutable (code.byteAt bci).toNat = true)
    (measured : Measured code code.size bci length) : decode other bci = decode code bci := by
  have base := le_switchBase bci
  have byte := agree.byteAt (Nat.le_refl bci) (Nat.lt_add_of_pos_right measured.pos)
  cases measured with
  | table op measured =>
      obtain ⟨-, -, length⟩ := tableSwitchLength?_eq_some.mp measured
      rw [decode_table op, decode_table (byte ▸ op), tableSwitch_congr agree (by omega)]
  | lookup op measured =>
      obtain ⟨-, -, length⟩ := lookupSwitchLength?_eq_some.mp measured
      rw [decode_lookup op, decode_lookup (byte ▸ op), lookupSwitch_congr agree (by omega)]
  | fixed table lookup measured some operands =>
      refine decode_congr_fixed (fun index above below => agree index above ?_) executable table
        lookup
      omega

end Instr

end Jvm
