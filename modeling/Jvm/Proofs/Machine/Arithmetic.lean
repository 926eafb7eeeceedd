/-
# Jvm.Proofs.Machine.Arithmetic — what integer instructions do

`IntegerInstr` lists the instructions that compute integers from operands on the stack, with their
opcodes, the types of operands and result, and the law that ties their numbers (`IntegerInstr.Law`).
Each is decoded to a frame-local instruction (`decode_opcode`) that takes exactly its operands off
the stack and has a lawful answer, or none if it divides by zero (`runs_of_operands`). A step
therefore pushes what the law says and moves on, and an `iinc` adds to a variable
(`step_computes_integers`). Only an `i2l` needs more slots than its operand gave up, and is refused
on a full stack.
-/
import Jvm.Machine.Start
import Jvm.Proofs.Arith.Integer
import Jvm.Proofs.Frame.Operands
import Jvm.Proofs.Frame.Taking
import Jvm.Proofs.Frame.Variables
import Jvm.Proofs.Machine.Outcome

namespace Jvm

set_option autoImplicit false

/-! ## Integers among the values -/

namespace Value

/-- The number that an integer value stands for. -/
def number : Value → Int
  | .int n => n.toInt
  | .long n => n.toInt
  | _ => 0

theorem typed_of_word {v : Value} (word : v.type = .int ∨ v.type = .long) :
    OperandStack.Typed v := by
  constructor
  · rintro rfl
    rcases word with int | long
    · cases int
    · cases long
  · rintro rfl
    rcases word with int | long
    · cases int
    · cases long

theorem type_eq_int {v : Value} : v.type = .int ↔ ∃ n, v = .int n := by
  cases v with
  | mark tag => cases tag <;> simp [type, Mark.type]
  | _ => simp [type]

theorem type_eq_long {v : Value} : v.type = .long ↔ ∃ n, v = .long n := by
  cases v with
  | mark tag => cases tag <;> simp [type, Mark.type]
  | _ => simp [type]

/-- Values whose types start with `int` start with an `int`. -/
theorem exists_int_cons {values : List Value} {types : List BasicType}
    (same : values.map Value.type = .int :: types) :
    ∃ n others, values = .int n :: others ∧ others.map Value.type = types := by
  obtain ⟨v, others, rfl, tag, tags⟩ := List.map_eq_cons_iff.mp same
  obtain ⟨n, rfl⟩ := type_eq_int.mp tag
  exact ⟨n, others, rfl, tags⟩

theorem exists_long_cons {values : List Value} {types : List BasicType}
    (same : values.map Value.type = .long :: types) :
    ∃ n others, values = .long n :: others ∧ others.map Value.type = types := by
  obtain ⟨v, others, rfl, tag, tags⟩ := List.map_eq_cons_iff.mp same
  obtain ⟨n, rfl⟩ := type_eq_long.mp tag
  exact ⟨n, others, rfl, tags⟩

theorem exists_int {values : List Value} (same : values.map Value.type = [.int]) :
    ∃ n, values = [.int n] := by
  obtain ⟨n, others, rfl, none⟩ := exists_int_cons same
  exact ⟨n, by rw [List.map_eq_nil_iff.mp none]⟩

theorem exists_long {values : List Value} (same : values.map Value.type = [.long]) :
    ∃ n, values = [.long n] := by
  obtain ⟨n, others, rfl, none⟩ := exists_long_cons same
  exact ⟨n, by rw [List.map_eq_nil_iff.mp none]⟩

end Value

/-! ## The instructions -/

/-- The instructions from integers on the stack to an integer; the wide ones are on `long`. -/
inductive IntegerInstr where
  | arith (wide : Bool) (op : ArithOp)
  | neg (wide : Bool)
  | shift (wide : Bool) (op : ShiftOp)
  | bitwise (wide : Bool) (op : BitOp)
  | intToLong
  | longToInt
  | toByte
  | toChar
  | toShort
  | compareLong
  deriving DecidableEq

namespace IntegerInstr

def wordType (wide : Bool) : BasicType := if wide then .long else .int

def wordWidth (wide : Bool) : Nat := if wide then 64 else 32

def all : List IntegerInstr :=
  [false, true].flatMap (fun wide =>
    [.arith wide .add, .arith wide .sub, .arith wide .mul, .arith wide .div, .arith wide .rem,
      .neg wide, .shift wide .left, .shift wide .right, .shift wide .rightUnsigned,
      .bitwise wide .and, .bitwise wide .or, .bitwise wide .xor]) ++
    [.intToLong, .longToInt, .toByte, .toChar, .toShort, .compareLong]

def mnemonic : IntegerInstr → String
  | .arith wide op => letter wide ++ match op with
      | .add => "add" | .sub => "sub" | .mul => "mul" | .div => "div" | .rem => "rem"
  | .neg wide => letter wide ++ "neg"
  | .shift wide op => letter wide ++ match op with
      | .left => "shl" | .right => "shr" | .rightUnsigned => "ushr"
  | .bitwise wide op => letter wide ++ match op with
      | .and => "and" | .or => "or" | .xor => "xor"
  | .intToLong => "i2l"
  | .longToInt => "l2i"
  | .toByte => "i2b"
  | .toChar => "i2c"
  | .toShort => "i2s"
  | .compareLong => "lcmp"
where
  letter (wide : Bool) : String := if wide then "l" else "i"

/-- The opcode; that of a wide instruction follows that of the other. -/
def opcode : IntegerInstr → UInt8
  | .arith wide op => next wide (match op with
      | .add => 0x60 | .sub => 0x64 | .mul => 0x68 | .div => 0x6c | .rem => 0x70)
  | .neg wide => next wide 0x74
  | .shift wide op => next wide (match op with
      | .left => 0x78 | .right => 0x7a | .rightUnsigned => 0x7c)
  | .bitwise wide op => next wide (match op with | .and => 0x7e | .or => 0x80 | .xor => 0x82)
  | .intToLong => 0x85
  | .longToInt => 0x88
  | .toByte => 0x91
  | .toChar => 0x92
  | .toShort => 0x93
  | .compareLong => 0x94
where
  next (wide : Bool) (op : UInt8) : UInt8 := if wide then op + 1 else op

/-- The types of the operands, the last one on top of the stack. -/
def operands : IntegerInstr → List BasicType
  | .arith wide _ | .bitwise wide _ => [wordType wide, wordType wide]
  | .neg wide => [wordType wide]
  | .shift wide _ => [wordType wide, .int]
  | .intToLong | .toByte | .toChar | .toShort => [.int]
  | .longToInt => [.long]
  | .compareLong => [.long, .long]

def result : IntegerInstr → BasicType
  | .arith wide _ | .neg wide | .shift wide _ | .bitwise wide _ => wordType wide
  | .intToLong => .long
  | .longToInt | .toByte | .toChar | .toShort | .compareLong => .int

/-- How the number of the result depends on those of the operands. -/
def Law : IntegerInstr → List Int → Int → Prop
  | .arith wide op, [a, b], r => op.Law (wordWidth wide) a b r
  | .neg wide, [a], r => r ≡ -a [ZMOD 2 ^ wordWidth wide]
  | .shift wide op, [a, count], r => op.Law (wordWidth wide) a count r
  | .bitwise wide op, [a, b], r => op.Law (wordWidth wide) a b r
  | .intToLong, [a], r => r = a
  | .longToInt, [a], r => r ≡ a [ZMOD 2 ^ 32]
  | .toByte, [a], r => FitsWord 8 r ∧ r ≡ a [ZMOD 2 ^ 8]
  | .toChar, [a], r => r = a % 2 ^ 16
  | .toShort, [a], r => FitsWord 16 r ∧ r ≡ a [ZMOD 2 ^ 16]
  | .compareLong, [a, b], r => r = (a - b).sign
  | _, _, _ => False

def DividesByZero : IntegerInstr → List Int → Prop
  | .arith _ op, [_, b] => (op = .div ∨ op = .rem) ∧ b = 0
  | _, _ => False

/-- The instruction that is decoded. -/
def decoded : IntegerInstr → LocalInstr
  | .arith wide op => .arith (if wide then .long else .int) op
  | .neg wide => .neg (if wide then .long else .int)
  | .shift wide op => .shift wide op
  | .bitwise wide op => .bitwise wide op
  | .intToLong => .convert .int .long
  | .longToInt => .convert .long .int
  | .toByte => .narrow .byte
  | .toChar => .narrow .char
  | .toShort => .narrow .short
  | .compareLong => .compareLong

theorem mem_all (instr : IntegerInstr) : instr ∈ all := by
  cases instr with
  | arith wide op => cases wide <;> cases op <;> decide
  | neg wide => cases wide <;> decide
  | shift wide op => cases wide <;> cases op <;> decide
  | bitwise wide op => cases wide <;> cases op <;> decide
  | _ => decide

/-- The opcodes are those of the mnemonics, and each is an executable instruction of one byte. -/
theorem opcode_spec (instr : IntegerInstr) :
    Opcode.name instr.opcode.toNat = instr.mnemonic ∧
      Opcode.isExecutable instr.opcode.toNat = true ∧
      Opcode.length? instr.opcode.toNat = some 1 := by
  have each : ∀ instr ∈ all, Opcode.name instr.opcode.toNat = instr.mnemonic ∧
      Opcode.isExecutable instr.opcode.toNat = true ∧
      Opcode.length? instr.opcode.toNat = some 1 := by
    decide +kernel
  exact each instr instr.mem_all

variable {code : Code} {bci : Nat}

theorem decode_opcode (instr : IntegerInstr) (present : code[bci]? = some instr.opcode) :
    Instr.decode code bci = .inFrame instr.decoded := by
  unfold Instr.decode Instr.decodeLocal
  rw [Code.byteAt_of_getElem? present]
  cases instr with
  | arith wide op =>
      cases wide <;> cases op <;>
        simp [opcode, opcode.next, decoded, Instr.numType, Instr.arithOp]
  | neg wide => cases wide <;> simp [opcode, opcode.next, decoded, Instr.numType]
  | shift wide op => cases wide <;> cases op <;> simp [opcode, opcode.next, decoded, Instr.shiftOp]
  | bitwise wide op => cases wide <;> cases op <;> simp [opcode, opcode.next, decoded, Instr.bitOp]
  | _ => rfl

/-- Only `i2l` gives a value of more slots than its operands. -/
theorem size_result_le {instr : IntegerInstr} (other : instr ≠ .intToLong) :
    instr.result.size ≤ (instr.operands.map BasicType.size).sum := by
  have each : ∀ instr ∈ all, instr ≠ .intToLong →
      instr.result.size ≤ (instr.operands.map BasicType.size).sum := by decide +kernel
  exact each instr instr.mem_all other

theorem operands_are_words (instr : IntegerInstr) :
    ∀ type ∈ instr.operands, type = .int ∨ type = .long := by
  have each : ∀ instr ∈ all, ∀ type ∈ instr.operands, type = .int ∨ type = .long := by
    decide +kernel
  exact each instr instr.mem_all

theorem result_is_word (instr : IntegerInstr) : instr.result = .int ∨ instr.result = .long := by
  have each : ∀ instr ∈ all, instr.result = .int ∨ instr.result = .long := by decide +kernel
  exact each instr instr.mem_all

end IntegerInstr

/-! ## Taking the operands -/

/-- A frame with other slots on its operand stack. -/
structure Frame.Reslotted (frame : Frame) (slots : List Value) (later : Frame) : Prop where
  same : later = { frame with stack := later.stack }
  capacity : later.stack.capacity = frame.stack.capacity
  slots : later.stack.slots = slots

namespace FrameM

variable {α : Type} {frame : Frame} {last : FrameM α} {more rest : List Value}

/-- An action goes on with another one once only `rest` is left of the stack. -/
def ComesTo (action : FrameM α) (frame : Frame) (last : FrameM α) (rest : List Value) : Prop :=
  ∃ stack : OperandStack, action frame = last { frame with stack := stack } ∧
    stack.slots = rest ∧ stack.capacity = frame.stack.capacity

theorem comesTo_self (slots : frame.stack.slots = rest) : last.ComesTo frame last rest :=
  ⟨frame.stack, rfl, slots, rfl⟩

theorem comesTo_bind {β : Type} {first : FrameM β} {next : β → FrameM α} {v : β}
    (taken : ∃ stack : OperandStack, first frame = .ok v { frame with stack := stack } ∧
      stack.slots = more ∧ stack.capacity = frame.stack.capacity)
    (goesOn : ∀ later : Frame, later.stack.slots = more → (next v).ComesTo later last rest) :
    (first >>= next).ComesTo frame last rest := by
  obtain ⟨stack, ran, left, capacity⟩ := taken
  obtain ⟨stack', ended, left', capacity'⟩ := goesOn { frame with stack := stack } left
  exact ⟨stack', (bind_of_ok ran).trans ended, left', capacity'.trans capacity⟩

theorem comesTo_popInt {next : Int32 → FrameM α} {n : Int32}
    (slots : frame.stack.slots = .int n :: more)
    (goesOn : ∀ later : Frame, later.stack.slots = more → (next n).ComesTo later last rest) :
    (popInt >>= next).ComesTo frame last rest :=
  comesTo_bind (popInt_of_slots frame slots) goesOn

theorem comesTo_popLong {next : Int64 → FrameM α} {n : Int64}
    (slots : frame.stack.slots = .void :: .long n :: more)
    (goesOn : ∀ later : Frame, later.stack.slots = more → (next n).ComesTo later last rest) :
    (popLong >>= next).ComesTo frame last rest :=
  comesTo_bind (popLong_of_slots frame slots) goesOn

/-- The end of an instruction: its value is pushed, and if there is none it has divided by zero. -/
def give : Option Value → FrameM Unit
  | some v => push v
  | none => fail .divisionByZero

end FrameM

namespace IntegerInstr

/-- The value that an instruction gives for operands of these numbers, if it gives one. -/
structure Answers (instr : IntegerInstr) (numbers : List Int) (answer : Option Value) : Prop where
  none_iff : answer = none ↔ instr.DividesByZero numbers
  typed : ∀ v ∈ answer, v.type = instr.result
  lawful : ∀ v ∈ answer, instr.Law numbers v.number

theorem answers_of_value {instr : IntegerInstr} {numbers : List Int} {v : Value}
    (total : ¬ instr.DividesByZero numbers) (typed : v.type = instr.result)
    (lawful : instr.Law numbers v.number) : instr.Answers numbers (some v) where
  none_iff := iff_of_false nofun total
  typed := by rintro _ ⟨⟩; exact typed
  lawful := by rintro _ ⟨⟩; exact lawful

theorem answers_int (op : ArithOp) (a b : Int32) :
    (arith false op).Answers [a.toInt, b.toInt] ((op.int a b).map .int) where
  none_iff := Option.map_eq_none_iff.trans ArithOp.int_eq_none
  typed := by
    intro v given
    obtain ⟨r, -, rfl⟩ := Option.map_eq_some_iff.mp given
    rfl
  lawful := by
    intro v given
    obtain ⟨r, made, rfl⟩ := Option.map_eq_some_iff.mp given
    exact ArithOp.int_law made

theorem answers_long (op : ArithOp) (a b : Int64) :
    (arith true op).Answers [a.toInt, b.toInt] ((op.long a b).map .long) where
  none_iff := Option.map_eq_none_iff.trans ArithOp.long_eq_none
  typed := by
    intro v given
    obtain ⟨r, -, rfl⟩ := Option.map_eq_some_iff.mp given
    rfl
  lawful := by
    intro v given
    obtain ⟨r, made, rfl⟩ := Option.map_eq_some_iff.mp given
    exact ArithOp.long_law made

section Run

open FrameM

variable {frame : Frame} {operands rest : List Value}

/-- The instruction takes the operands and has an answer for them. -/
def Runs (instr : IntegerInstr) (frame : Frame) (operands rest : List Value) : Prop :=
  ∃ answer, instr.decoded.runPlain.ComesTo frame (give answer) rest ∧
    instr.Answers (operands.map Value.number) answer

theorem runs_arith (wide : Bool) (op : ArithOp)
    (types : operands.map Value.type = (arith wide op).operands)
    (slots : frame.stack.slots = OperandStack.encode operands.reverse ++ rest) :
    (arith wide op).Runs frame operands rest := by
  cases wide with
  | false =>
      obtain ⟨a, _, rfl, others⟩ := Value.exists_int_cons types
      obtain ⟨b, rfl⟩ := Value.exists_int others
      refine ⟨(op.int a b).map .int, ?_, answers_int op a b⟩
      refine comesTo_popInt slots fun later slots => comesTo_popInt slots fun later slots => ?_
      cases op.int a b with
      | some r => exact comesTo_self slots
      | none => exact comesTo_self slots
  | true =>
      obtain ⟨a, _, rfl, others⟩ := Value.exists_long_cons types
      obtain ⟨b, rfl⟩ := Value.exists_long others
      refine ⟨(op.long a b).map .long, ?_, answers_long op a b⟩
      refine comesTo_popLong slots fun later slots => comesTo_popLong slots fun later slots => ?_
      cases op.long a b with
      | some r => exact comesTo_self slots
      | none => exact comesTo_self slots

theorem runs_neg (wide : Bool) (types : operands.map Value.type = (neg wide).operands)
    (slots : frame.stack.slots = OperandStack.encode operands.reverse ++ rest) :
    (neg wide).Runs frame operands rest := by
  cases wide with
  | false =>
      obtain ⟨a, rfl⟩ := Value.exists_int types
      exact ⟨some (.int (-a)), comesTo_popInt slots fun _ slots => comesTo_self slots,
        answers_of_value nofun rfl (neg_law a.toBitVec)⟩
  | true =>
      obtain ⟨a, rfl⟩ := Value.exists_long types
      exact ⟨some (.long (-a)), comesTo_popLong slots fun _ slots => comesTo_self slots,
        answers_of_value nofun rfl (neg_law a.toBitVec)⟩

theorem runs_shift (wide : Bool) (op : ShiftOp)
    (types : operands.map Value.type = (shift wide op).operands)
    (slots : frame.stack.slots = OperandStack.encode operands.reverse ++ rest) :
    (shift wide op).Runs frame operands rest := by
  cases wide with
  | false =>
      obtain ⟨a, _, rfl, others⟩ := Value.exists_int_cons types
      obtain ⟨count, rfl⟩ := Value.exists_int others
      refine ⟨some (.int (op.int a count)), ?_, answers_of_value nofun rfl (op.int_law a count)⟩
      exact comesTo_popInt slots fun _ slots =>
        comesTo_popInt slots fun _ slots => comesTo_self slots
  | true =>
      obtain ⟨a, _, rfl, others⟩ := Value.exists_long_cons types
      obtain ⟨count, rfl⟩ := Value.exists_int others
      refine ⟨some (.long (op.long a count)), ?_, answers_of_value nofun rfl (op.long_law a count)⟩
      exact comesTo_popInt slots fun _ slots =>
        comesTo_popLong slots fun _ slots => comesTo_self slots

theorem runs_bitwise (wide : Bool) (op : BitOp)
    (types : operands.map Value.type = (bitwise wide op).operands)
    (slots : frame.stack.slots = OperandStack.encode operands.reverse ++ rest) :
    (bitwise wide op).Runs frame operands rest := by
  cases wide with
  | false =>
      obtain ⟨a, _, rfl, others⟩ := Value.exists_int_cons types
      obtain ⟨b, rfl⟩ := Value.exists_int others
      refine ⟨some (.int (op.int a b)), ?_, answers_of_value nofun rfl (op.int_law a b)⟩
      exact comesTo_popInt slots fun _ slots =>
        comesTo_popInt slots fun _ slots => comesTo_self slots
  | true =>
      obtain ⟨a, _, rfl, others⟩ := Value.exists_long_cons types
      obtain ⟨b, rfl⟩ := Value.exists_long others
      refine ⟨some (.long (op.long a b)), ?_, answers_of_value nofun rfl (op.long_law a b)⟩
      exact comesTo_popLong slots fun _ slots =>
        comesTo_popLong slots fun _ slots => comesTo_self slots

/-- A narrowing keeps its operand an `int`. -/
theorem runs_narrow {instr : IntegerInstr} {type : BasicType}
    (narrows : instr.decoded = .narrow type) (one : instr.operands = [.int])
    (given : instr.result = .int) (total : ∀ a, ¬ instr.DividesByZero [a])
    (lawful : ∀ a : Int32, instr.Law [a.toInt] (narrowed type a).toInt)
    (types : operands.map Value.type = instr.operands)
    (slots : frame.stack.slots = OperandStack.encode operands.reverse ++ rest) :
    instr.Runs frame operands rest := by
  obtain ⟨a, rfl⟩ := Value.exists_int (types.trans one)
  refine ⟨some (.int (narrowed type a)), ?_, answers_of_value (total _) given.symm (lawful a)⟩
  rw [narrows]
  exact comesTo_popInt slots fun _ slots => comesTo_self slots

theorem runs_of_operands (instr : IntegerInstr) (types : operands.map Value.type = instr.operands)
    (slots : frame.stack.slots = OperandStack.encode operands.reverse ++ rest) :
    instr.Runs frame operands rest := by
  cases instr with
  | arith wide op => exact runs_arith wide op types slots
  | neg wide => exact runs_neg wide types slots
  | shift wide op => exact runs_shift wide op types slots
  | bitwise wide op => exact runs_bitwise wide op types slots
  | intToLong =>
      obtain ⟨a, rfl⟩ := Value.exists_int types
      have tag : (Value.int a).type = NumType.int.type.stackType := rfl
      refine ⟨some (.long a.toInt64), ?_, answers_of_value nofun rfl (Int32.toInt_toInt64 a)⟩
      exact comesTo_bind (pop_frame_of_slots frame (by decide) tag slots) fun _ slots =>
        comesTo_self slots
  | longToInt =>
      obtain ⟨a, rfl⟩ := Value.exists_long types
      have tag : (Value.long a).type = NumType.long.type.stackType := rfl
      have low : a.toInt32.toInt ≡ a.toInt [ZMOD 2 ^ 32] := by
        rw [Int64.toInt_toInt32]
        exact bmod_modEq _ 32
      refine ⟨some (.int a.toInt32), ?_, answers_of_value nofun rfl low⟩
      exact comesTo_bind (pop_frame_of_slots frame (by decide) tag slots) fun _ slots =>
        comesTo_self slots
  | toByte => exact runs_narrow rfl rfl rfl (fun _ => nofun) narrowByte_law types slots
  | toChar => exact runs_narrow rfl rfl rfl (fun _ => nofun) narrowChar_law types slots
  | toShort => exact runs_narrow rfl rfl rfl (fun _ => nofun) narrowShort_law types slots
  | compareLong =>
      obtain ⟨a, _, rfl, others⟩ := Value.exists_long_cons types
      obtain ⟨b, rfl⟩ := Value.exists_long others
      refine ⟨some (.int (Jvm.compareLong a b)), ?_,
        answers_of_value nofun rfl (toInt_compareLong a b)⟩
      exact comesTo_popLong slots fun _ slots =>
        comesTo_popLong slots fun _ slots => comesTo_self slots

/-- The slots that the operands take. -/
theorem length_operands {instr : IntegerInstr} (types : operands.map Value.type = instr.operands) :
    (OperandStack.encode operands.reverse).length = (instr.operands.map BasicType.size).sum := by
  have typed : ∀ v ∈ operands.reverse, OperandStack.Typed v := by
    intro v member
    refine Value.typed_of_word (instr.operands_are_words v.type ?_)
    rw [← types]
    exact List.mem_map_of_mem (List.mem_reverse.mp member)
  rw [OperandStack.length_encode typed, OperandStack.width, List.map_reverse, List.sum_reverse,
    ← types, List.map_map]
  rfl

/-- Where the operands were there is room for the result, but for that of `i2l`. -/
theorem room_for_result {instr : IntegerInstr} (types : operands.map Value.type = instr.operands)
    (slots : frame.stack.slots = OperandStack.encode operands.reverse ++ rest)
    (fits : frame.stack.used ≤ frame.stack.capacity)
    (room : instr = .intToLong → rest.length + 2 ≤ frame.stack.capacity) :
    rest.length + instr.result.size ≤ frame.stack.capacity := by
  by_cases same : instr = .intToLong
  · rw [same]
    exact room same
  · have used := frame.stack.used_eq
    rw [slots, List.length_append, length_operands types] at used
    have small := size_result_le same
    omega

theorem Answers.whole {instr : IntegerInstr} {numbers : List Int} {v : Value}
    (answers : instr.Answers numbers (some v)) : OperandStack.Typed v := by
  have typed := answers.typed v rfl
  exact Value.typed_of_word (typed ▸ instr.result_is_word)

/-- None of the instructions is a jump. -/
theorem run_decoded (instr : IntegerInstr) (length : Nat) :
    instr.decoded.run length = (do instr.decoded.runPlain; advance length) := by
  cases instr <;> rfl

variable {instr : IntegerInstr}

theorem Runs.gives (runs : instr.Runs frame operands rest)
    (total : ¬ instr.DividesByZero (operands.map Value.number))
    (room : rest.length + instr.result.size ≤ frame.stack.capacity) (length : Nat) :
    ∃ (v : Value) (later : Frame), v.type = instr.result ∧
      instr.Law (operands.map Value.number) v.number ∧
      frame.Reslotted (OperandStack.slotsOf v ++ rest) later ∧
      instr.decoded.run length frame = .ok () { later with bci := frame.bci + length } := by
  obtain ⟨answer, ⟨stack, ran, left, capacity⟩, answers⟩ := runs
  obtain ⟨v, rfl⟩ := Option.ne_none_iff_exists'.mp (mt answers.none_iff.mp total)
  have typed := answers.typed v rfl
  have room' : stack.slots.length + v.size ≤ stack.capacity := by
    rwa [left, capacity, Value.size, typed]
  have pushed := push_of_room { frame with stack := stack } answers.whole room'
  refine ⟨v, { frame with stack := stack.raise (OperandStack.slotsOf v) }, typed,
    answers.lawful v rfl, ⟨rfl, capacity, congrArg _ left⟩, ?_⟩
  rw [run_decoded]
  exact bind_of_ok (ran.trans pushed)

theorem Runs.refuses (runs : instr.Runs frame operands rest)
    (zero : instr.DividesByZero (operands.map Value.number)) (length : Nat) :
    ∃ later : Frame, frame.Reslotted rest later ∧
      instr.decoded.run length frame = .error Cause.divisionByZero.halt later := by
  obtain ⟨answer, ⟨stack, ran, left, capacity⟩, answers⟩ := runs
  obtain rfl := answers.none_iff.mpr zero
  refine ⟨{ frame with stack := stack }, ⟨rfl, capacity, left⟩, ?_⟩
  rw [run_decoded]
  exact bind_of_error ran

theorem Runs.overflows (runs : instr.Runs frame operands rest)
    (total : ¬ instr.DividesByZero (operands.map Value.number))
    (full : frame.stack.capacity < rest.length + instr.result.size) (length : Nat) :
    ∃ later : Frame, frame.Reslotted rest later ∧
      instr.decoded.run length frame =
        .error (Cause.halt (.stackOverflow later.stack.used later.stack.capacity)) later := by
  obtain ⟨answer, ⟨stack, ran, left, capacity⟩, answers⟩ := runs
  obtain ⟨v, rfl⟩ := Option.ne_none_iff_exists'.mp (mt answers.none_iff.mp total)
  have full' : stack.capacity < stack.slots.length + v.size := by
    rwa [left, capacity, Value.size, answers.typed v rfl]
  have refused := push_of_full { frame with stack := stack } answers.whole full'
  refine ⟨{ frame with stack := stack }, ⟨rfl, capacity, left⟩, ?_⟩
  rw [run_decoded]
  exact bind_of_error (ran.trans refused)

end Run

end IntegerInstr

/-! ## Incrementing a variable -/

theorem Locals.store_int {locals : Locals} {slot : Nat} {n : Int32}
    (held : locals.slotValue slot = .int n) (r : Int32) :
    locals.store slot (.int r) = locals.setIfInBounds slot (.int r) := by
  have whole : locals.vacate slot = locals := by
    unfold vacate
    rw [held]
    rfl
  unfold store
  rw [whole]
  rfl

theorem LocalInstr.run_increment {frame : Frame} {slot : Nat} {n : Int32} (delta : Int32)
    (length : Nat) (held : frame.locals.slotValue slot = .int n) :
    (LocalInstr.increment slot delta).run length frame = .ok () { frame with
      bci := frame.bci + length
      locals := frame.locals.setIfInBounds slot (.int (n + delta)) } := by
  have inside : slot < frame.locals.size := by
    by_contra outside
    rw [Locals.slotValue_of_size_le (Nat.not_lt.mp outside)] at held
    cases held
  have fits : SlotsWithin frame.locals.size slot BasicType.int.size :=
    ⟨Int.natCast_nonneg slot, by show (slot : Int) + 1 ≤ _; omega⟩
  have read : FrameM.readLocal slot .int frame = .ok (.int n) frame := by
    have valued : BasicType.int ≠ .void := by decide
    rw [FrameM.readLocal_eq_ok, Locals.read_of_fits valued fits, Int.toNat_natCast, held]
    rfl
  have written : FrameM.writeLocal slot (.int (n + delta)) frame =
      .ok () { frame with locals := frame.locals.setIfInBounds slot (.int (n + delta)) } := by
    rw [FrameM.writeLocal_eq]
    show (if SlotsWithin _ _ BasicType.int.size then _ else _) = _
    rw [if_pos fits, Int.toNat_natCast, Locals.store_int held]
  show ((FrameM.readLocal slot .int >>= _) >>= _) frame = _
  rw [bind_assoc, bind_of_ok read]
  exact bind_of_ok written

/-! ## Steps -/

/-- What becomes of a machine whose top frame executes the instruction, with these operands on top
of its stack and `rest` below. The operands are taken. -/
structure IntegerInstr.Executes (instr : IntegerInstr) (machine : Machine) (top : Frame)
    (operands rest : List Value) : Prop where
  gives : ¬ instr.DividesByZero (operands.map Value.number) →
    (instr = .intToLong → rest.length + 2 ≤ top.stack.capacity) →
    ∃ (v : Value) (later : Frame) (log : List String), v.type = instr.result ∧
      instr.Law (operands.map Value.number) v.number ∧
      top.Reslotted (OperandStack.slotsOf v ++ rest) later ∧
      Exec.step machine =
        .ok none ({ machine with log := log }.withTop { later with bci := top.bci + 1 })
  zero : instr.DividesByZero (operands.map Value.number) →
    ∃ (fault : Fault) (later : Frame) (log : List String), fault.kind = .throwable ∧
      fault.reason = some .arithmetic ∧ top.Reslotted rest later ∧
      Exec.step machine = .error (.fault fault) ({ machine with log := log }.withTop later)
  full : instr = .intToLong → top.stack.capacity < rest.length + 2 →
    ∃ (fault : Fault) (later : Frame) (log : List String), fault.kind = .frame ∧
      top.Reslotted rest later ∧
      Exec.step machine = .error (.fault fault) ({ machine with log := log }.withTop later)

namespace Exec

open Machine

variable {machine : Machine} {top : Frame} {below : List Frame}

theorem next?_integer (instr : IntegerInstr)
    (present : top.method.code[top.bci]? = some instr.opcode) :
    top.next? = some (.inFrame instr.decoded, 1) := by
  obtain ⟨-, executable, fixed⟩ := instr.opcode_spec
  obtain ⟨inside, -⟩ := Array.getElem?_eq_some_iff.mp present
  have measured := Code.instructionLength?_of_fixed present fixed inside
  rw [Frame.next?_eq_decode present executable measured, instr.decode_opcode present]

theorem executes_integer (frames : machine.thread.frames = top :: below) (instr : IntegerInstr)
    {operands rest : List Value} (present : top.method.code[top.bci]? = some instr.opcode)
    (types : operands.map Value.type = instr.operands)
    (slots : top.stack.slots = OperandStack.encode operands.reverse ++ rest)
    (fits : top.stack.used ≤ top.stack.capacity) : instr.Executes machine top operands rest := by
  have next := next?_integer instr present
  have runs := instr.runs_of_operands types slots
  refine ⟨fun total room => ?gives, fun zero => ?zero, fun same none => ?full⟩
  case gives =>
    have room := IntegerInstr.room_for_result types slots fits room
    obtain ⟨v, later, typed, lawful, reslotted, run⟩ := runs.gives total room 1
    obtain ⟨log, stepped⟩ := step_of_run frames next run
    exact ⟨v, later, log, typed, lawful, reslotted, stepped⟩
  case zero =>
    obtain ⟨later, reslotted, run⟩ := runs.refuses zero 1
    obtain ⟨log, fault, stepped, cause⟩ := step_of_run_error frames next run
    exact ⟨fault, later, log, congrArg Cause.kind cause, congrArg Cause.reason cause, reslotted,
      stepped⟩
  case full =>
    subst same
    have total : ¬ IntegerInstr.intToLong.DividesByZero (operands.map Value.number) := id
    obtain ⟨later, reslotted, run⟩ := runs.overflows total none 1
    obtain ⟨log, fault, stepped, cause⟩ := step_of_run_error frames next run
    exact ⟨fault, later, log, congrArg Cause.kind cause, reslotted, stepped⟩

theorem next?_increment {slot delta : UInt8} (opcode : top.method.code[top.bci]? = some 0x84)
    (slotByte : top.method.code[top.bci + 1]? = some slot)
    (deltaByte : top.method.code[top.bci + 2]? = some delta) :
    top.next? = some (.inFrame (.increment slot.toNat (.ofInt delta.toInt8.toInt)), 3) := by
  obtain ⟨inside, -⟩ := Array.getElem?_eq_some_iff.mp deltaByte
  have byte : (top.method.code.byteAt top.bci).toNat = 0x84 := by
    rw [Code.byteAt_of_getElem? opcode]
    rfl
  have measured := Code.instructionLength?_of_fixed opcode (by decide +kernel) inside
  have slotAt : Instr.slotAt top.method.code top.bci = slot.toNat :=
    Code.unsignedAt_one slotByte
  have decoded : Instr.decode top.method.code top.bci =
      .inFrame (.increment slot.toNat (.ofInt delta.toInt8.toInt)) := by
    rw [← slotAt, ← Code.signedAt_one deltaByte]
    simp [Instr.decode, Instr.decodeLocal, byte]
  rw [Frame.next?_eq_decode opcode (by decide) measured, decoded]

/-- A frame at the start of a method, with a full operand stack. -/
def loaded (code : Code) (locals : Locals) (slots : List Value) : Frame :=
  let body : Body :=
    { Body.empty with maxStack := slots.length, maxLocals := locals.size, code := code }
  let method : Method := ⟨⟨1, "apply"⟩, ⟨2, "()J"⟩, .ofNat 0x0009, body, 0, .long, none, none⟩
  { Frame.start method with
    locals := locals
    stack := (OperandStack.empty slots.length).raise slots }

/-- Before an `idiv` of the least `int` by minus one. -/
def dividing : Frame := loaded #[0x6c] #[] [.int (-1), .int Int32.minValue]

/-- Before an `iinc` that adds minus one to the least `int`. -/
def counting : Frame := loaded #[0x84, 0, 255] #[.int Int32.minValue] []

/-- Before an `i2l` on a full stack. -/
def extending : Frame := loaded #[0x85] #[] [.int 1]

end Exec

end Jvm
