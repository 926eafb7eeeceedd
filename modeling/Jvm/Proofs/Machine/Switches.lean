/-
# Jvm.Proofs.Machine.Switches — where a switch goes

`SwitchesBy` says by the bytes of the code which offset a switch instruction has for a key: its
table starts at the first multiple of four behind the opcode, the numbers in it are signed and of
four bytes, a `tableswitch` has an offset for each key between its bounds and a `lookupswitch` for
the first pair that matches. A switch that can be measured has one such offset for every key
(`switchOffset?_table`, `switchOffset?_lookup`). A step that executes it goes there, and takes
nothing but the key (`step_switches`).
-/
import Jvm.Machine.Start
import Jvm.Proofs.Frame.Operands
import Jvm.Proofs.Frame.Taking
import Jvm.Proofs.Machine.Outcome

namespace Jvm

set_option autoImplicit false

namespace Code

/-! ## The table of a switch -/

/-- Four bytes of the code are a signed number, the most significant byte first. -/
def HoldsInt (code : Code) (index : Nat) (n : Int) : Prop :=
  ∃ a b c d : UInt8, code[index]? = some a ∧ code[index + 1]? = some b ∧
    code[index + 2]? = some c ∧ code[index + 3]? = some d ∧
    n = (a.toBitVec ++ b.toBitVec ++ c.toBitVec ++ d.toBitVec).toInt

/-- The operands of a switch at `bci` start at `base`. -/
def PadsTo (bci base : Nat) : Prop := 4 ∣ base ∧ bci < base ∧ base ≤ bci + 4

/-- The switch at an index of the code has this offset for a key. -/
inductive SwitchesBy (code : Code) (bci : Nat) (key : Int) : Int → Prop
  | entry {base : Nat} {low high offset : Int} (op : code[bci]? = some 0xaa)
      (padded : PadsTo bci base)
      (bounds : code.HoldsInt (base + 4) low ∧ code.HoldsInt (base + 8) high)
      (within : low ≤ key ∧ key ≤ high)
      (listed : code.HoldsInt (base + 12 + 4 * (key - low).toNat) offset) :
      SwitchesBy code bci key offset
  | outside {base : Nat} {low high offset : Int} (op : code[bci]? = some 0xaa)
      (padded : PadsTo bci base)
      (bounds : code.HoldsInt (base + 4) low ∧ code.HoldsInt (base + 8) high)
      (without : key < low ∨ high < key) (listed : code.HoldsInt base offset) :
      SwitchesBy code bci key offset
  | pair {base entry : Nat} {count offset : Int} (op : code[bci]? = some 0xab)
      (padded : PadsTo bci base) (counted : code.HoldsInt (base + 4) count) (within : entry < count)
      (first : ∀ earlier < entry, ¬ code.HoldsInt (base + 8 + 8 * earlier) key)
      (same : code.HoldsInt (base + 8 + 8 * entry) key)
      (listed : code.HoldsInt (base + 12 + 8 * entry) offset) : SwitchesBy code bci key offset
  | unpaired {base : Nat} {count offset : Int} (op : code[bci]? = some 0xab)
      (padded : PadsTo bci base) (counted : code.HoldsInt (base + 4) count)
      (none : ∀ entry : Nat, entry < count → ¬ code.HoldsInt (base + 8 + 8 * entry) key)
      (listed : code.HoldsInt base offset) : SwitchesBy code bci key offset

variable {code : Code} {index bci base length : Nat} {n key offset : Int}

theorem padsTo_iff : PadsTo bci base ↔ base = switchBase bci := by
  unfold PadsTo switchBase alignUp4
  omega

/-- Four bytes in a row as one number. -/
theorem toNat_append (a b c d : UInt8) :
    (a.toBitVec ++ b.toBitVec ++ c.toBitVec ++ d.toBitVec).toNat =
      BigEndian.decode [a, b, c, d] := by
  have step (high : Nat) (low : UInt8) :
      high <<< 8 ||| low.toBitVec.toNat = high * 256 + low.toNat := by
    rw [← Nat.shiftLeft_add_eq_or_of_lt low.toBitVec.isLt, Nat.shiftLeft_eq]
    rfl
  rw [BitVec.toNat_append, BitVec.toNat_append, BitVec.toNat_append, step, step, step]
  simp [BigEndian.decode]

theorem signedAt_of_bytes {a b c d : UInt8} (first : code[index]? = some a)
    (second : code[index + 1]? = some b) (third : code[index + 2]? = some c)
    (fourth : code[index + 3]? = some d) :
    code.signedAt 4 index = (a.toBitVec ++ b.toBitVec ++ c.toBitVec ++ d.toBitVec).toInt := by
  have bytes : code.unsignedAt 4 index = BigEndian.decode [a, b, c, d] := by
    unfold unsignedAt
    rw [← byteAt_of_getElem? first, ← byteAt_of_getElem? second, ← byteAt_of_getElem? third,
      ← byteAt_of_getElem? fourth]
    rfl
  rw [signedAt, bytes, BitVec.toInt_eq_toNat_cond, toNat_append]
  rfl

/-- A number is held wherever four bytes are present, and it is the one that is read there. -/
theorem holdsInt_iff :
    code.HoldsInt index n ↔ index + 4 ≤ code.size ∧ n = code.signedAt 4 index := by
  constructor
  · rintro ⟨a, b, c, d, first, second, third, fourth, rfl⟩
    obtain ⟨inside, -⟩ := Array.getElem?_eq_some_iff.mp fourth
    exact ⟨inside, (signedAt_of_bytes first second third fourth).symm⟩
  · rintro ⟨inside, rfl⟩
    have byte (offset : Nat) (within : offset < 4) :
        code[index + offset]? = some code[index + offset] := Array.getElem?_eq_getElem (by omega)
    exact ⟨_, _, _, _, byte 0 (by decide), byte 1 (by decide), byte 2 (by decide),
      byte 3 (by decide), signedAt_of_bytes (byte 0 (by decide)) (byte 1 (by decide))
        (byte 2 (by decide)) (byte 3 (by decide))⟩

theorem holdsInt_iff_of_le (inside : index + 4 ≤ code.size) :
    code.HoldsInt index n ↔ n = code.signedAt 4 index := by
  rw [holdsInt_iff]
  exact and_iff_right inside

end Code

/-! ## What the table says is what is decoded -/

/-- The offset of a decoded switch for a key. -/
def LocalInstr.switchOffset? (key : Int) : LocalInstr → Option Int
  | .tableSwitch fallback low high offsets =>
      some (FrameM.tableOffset fallback low high offsets key)
  | .lookupSwitch fallback pairs => some (FrameM.lookupOffset fallback pairs key)
  | _ => none

/-- The first of some numbered pairs that has a key. -/
theorem lookup_map_pairs (keys values : Nat → Int) (key : Int) (numbers : List Nat) :
    (numbers.map fun i => (keys i, values i)).lookup key =
      (numbers.find? fun i => key == keys i).map values := by
  induction numbers with
  | nil => rfl
  | cons i numbers ih =>
      rw [List.map_cons, List.lookup_cons, List.find?_cons]
      cases key == keys i with
      | true => rfl
      | false => exact ih

namespace Code

variable {code : Code} {bci length : Nat} {key offset : Int}

/-- The table of a `tableswitch` that can be measured is in the code. -/
theorem table_le_size (op : code[bci]? = some 0xaa)
    (measured : code.instructionLength? code.size bci = some length) :
    switchBase bci + 12 + 4 * (code.signedAt 4 (switchBase bci + 8) -
      code.signedAt 4 (switchBase bci + 4) + 1).toNat ≤ code.size := by
  obtain ⟨-, declared, fits⟩ := instructionLength?_eq_some.mp measured
  have byte : code.byteAt bci = 0xaa := byteAt_of_getElem? op
  have base := le_switchBase bci
  cases measured_of_declared (by rw [byte]; decide) declared with
  | table _ extent =>
      obtain ⟨-, -, rfl⟩ := tableSwitchLength?_eq_some.mp extent
      omega
  | lookup other => rw [byte] at other; cases other
  | fixed notTable => rw [byte] at notTable; exact absurd rfl notTable

/-- The pairs of a `lookupswitch` that can be measured are in the code. -/
theorem pairs_le_size (op : code[bci]? = some 0xab)
    (measured : code.instructionLength? code.size bci = some length) :
    switchBase bci + 8 + 8 * (code.signedAt 4 (switchBase bci + 4)).toNat ≤ code.size := by
  obtain ⟨-, declared, fits⟩ := instructionLength?_eq_some.mp measured
  have byte : code.byteAt bci = 0xab := byteAt_of_getElem? op
  have base := le_switchBase bci
  cases measured_of_declared (by rw [byte]; decide) declared with
  | table other => rw [byte] at other; cases other
  | lookup _ extent =>
      obtain ⟨-, -, rfl⟩ := lookupSwitchLength?_eq_some.mp extent
      omega
  | fixed _ notLookup => rw [byte] at notLookup; exact absurd rfl notLookup

theorem switchOffset?_tableSwitch (code : Code) (bci : Nat) :
    (Instr.tableSwitch code bci).switchOffset? key =
      some (FrameM.tableOffset (code.signedAt 4 (switchBase bci))
        (code.signedAt 4 (switchBase bci + 4)) (code.signedAt 4 (switchBase bci + 8))
        ((List.range (code.signedAt 4 (switchBase bci + 8) -
          code.signedAt 4 (switchBase bci + 4) + 1).toNat).map fun i =>
            code.signedAt 4 (switchBase bci + 12 + 4 * i)) key) := rfl

theorem switchOffset?_table (op : code[bci]? = some 0xaa)
    (measured : code.instructionLength? code.size bci = some length) :
    code.SwitchesBy bci key offset ↔
      (Instr.tableSwitch code bci).switchOffset? key = some offset := by
  have inside := table_le_size op measured
  rw [switchOffset?_tableSwitch, Option.some.injEq, FrameM.tableOffset]
  have entry (within : code.signedAt 4 (switchBase bci + 4) ≤ key ∧
      key ≤ code.signedAt 4 (switchBase bci + 8)) :
      (key - code.signedAt 4 (switchBase bci + 4)).toNat <
        (code.signedAt 4 (switchBase bci + 8) -
          code.signedAt 4 (switchBase bci + 4) + 1).toNat := by
    omega
  constructor
  · intro switches
    cases switches with
    | entry op padded bounds within listed =>
        obtain rfl := padsTo_iff.mp padded
        obtain rfl := (holdsInt_iff.mp bounds.1).2
        obtain rfl := (holdsInt_iff.mp bounds.2).2
        rw [if_pos within, List.getD_eq_getElem?_getD, List.getElem?_map,
          List.getElem?_range (entry within), (holdsInt_iff.mp listed).2]
        rfl
    | outside op padded bounds without listed =>
        obtain rfl := padsTo_iff.mp padded
        obtain rfl := (holdsInt_iff.mp bounds.1).2
        obtain rfl := (holdsInt_iff.mp bounds.2).2
        rw [if_neg (by omega), (holdsInt_iff.mp listed).2]
    | pair op' => rw [op] at op'; cases op'
    | unpaired op' => rw [op] at op'; cases op'
  · rintro rfl
    have bounds : code.HoldsInt (switchBase bci + 4) _ ∧ code.HoldsInt (switchBase bci + 8) _ :=
      ⟨(holdsInt_iff_of_le (by omega)).mpr rfl, (holdsInt_iff_of_le (by omega)).mpr rfl⟩
    split
    · rename_i within
      have listed := entry within
      rw [List.getD_eq_getElem?_getD, List.getElem?_map, List.getElem?_range listed]
      exact .entry op (padsTo_iff.mpr rfl) bounds within
        ((holdsInt_iff_of_le (by omega)).mpr rfl)
    · exact .outside op (padsTo_iff.mpr rfl) bounds (by omega)
        ((holdsInt_iff_of_le (by omega)).mpr rfl)

section Find

variable {held : Nat → Prop} {keys : Nat → Int} {count entry : Nat}

/-- Looking for a key among numbers that are held in the code. -/
theorem find?_keys_eq_some (read : ∀ i < count, held i ↔ key = keys i) :
    (List.range count).find? (fun i => key == keys i) = some entry ↔
      entry < count ∧ held entry ∧ ∀ earlier < entry, ¬ held earlier := by
  rw [List.find?_range_eq_some, beq_iff_eq, List.mem_range]
  constructor
  · rintro ⟨same, within, first⟩
    refine ⟨within, (read entry within).mpr same, fun earlier before found => ?_⟩
    have differs := first earlier before
    rw [Bool.not_eq_true', beq_eq_false_iff_ne] at differs
    exact differs ((read earlier (by omega)).mp found)
  · rintro ⟨within, same, first⟩
    refine ⟨(read entry within).mp same, within, fun earlier before => ?_⟩
    rw [Bool.not_eq_true', beq_eq_false_iff_ne]
    exact fun equal => first earlier before ((read earlier (by omega)).mpr equal)

theorem find?_keys_eq_none (read : ∀ i < count, held i ↔ key = keys i) :
    (List.range count).find? (fun i => key == keys i) = none ↔ ∀ i < count, ¬ held i := by
  simp only [List.find?_eq_none, List.mem_range, beq_iff_eq]
  exact forall₂_congr fun i within => not_congr (read i within).symm

end Find

theorem switchOffset?_lookupSwitch (code : Code) (bci : Nat) :
    (Instr.lookupSwitch code bci).switchOffset? key =
      some ((((List.range (code.signedAt 4 (switchBase bci + 4)).toNat).find? fun i =>
        key == code.signedAt 4 (switchBase bci + 8 + 8 * i)).map fun i =>
          code.signedAt 4 (switchBase bci + 12 + 8 * i)).getD
            (code.signedAt 4 (switchBase bci))) := by
  rw [← lookup_map_pairs]
  rfl

theorem switchOffset?_lookup (op : code[bci]? = some 0xab)
    (measured : code.instructionLength? code.size bci = some length) :
    code.SwitchesBy bci key offset ↔
      (Instr.lookupSwitch code bci).switchOffset? key = some offset := by
  have inside := pairs_le_size op measured
  -- within the count, holding the key is being equal to what is read
  have read (i : Nat) (within : i < (code.signedAt 4 (switchBase bci + 4)).toNat) :
      code.HoldsInt (switchBase bci + 8 + 8 * i) key ↔
        key = code.signedAt 4 (switchBase bci + 8 + 8 * i) := holdsInt_iff_of_le (by omega)
  rw [switchOffset?_lookupSwitch, Option.some.injEq]
  constructor
  · intro switches
    cases switches with
    | entry op' => rw [op] at op'; cases op'
    | outside op' => rw [op] at op'; cases op'
    | pair op padded counted within first same listed =>
        obtain rfl := padsTo_iff.mp padded
        obtain rfl := (holdsInt_iff.mp counted).2
        have found := (find?_keys_eq_some read).mpr ⟨by omega, same, first⟩
        rw [found, (holdsInt_iff.mp listed).2]
        rfl
    | unpaired op padded counted none listed =>
        obtain rfl := padsTo_iff.mp padded
        obtain rfl := (holdsInt_iff.mp counted).2
        have missing := (find?_keys_eq_none read).mpr fun i within => none i (by omega)
        rw [missing, (holdsInt_iff.mp listed).2]
        rfl
  · rintro rfl
    have counted : code.HoldsInt (switchBase bci + 4) _ := (holdsInt_iff_of_le (by omega)).mpr rfl
    cases found : (List.range (code.signedAt 4 (switchBase bci + 4)).toNat).find?
        (fun i => key == code.signedAt 4 (switchBase bci + 8 + 8 * i)) with
    | some entry =>
        obtain ⟨within, same, first⟩ := (find?_keys_eq_some read).mp found
        exact .pair op (padsTo_iff.mpr rfl) counted (by omega) first same
          ((holdsInt_iff_of_le (by omega)).mpr rfl)
    | none =>
        have missing := (find?_keys_eq_none read).mp found
        exact .unpaired op (padsTo_iff.mpr rfl) counted (fun i within => missing i (by omega))
          ((holdsInt_iff_of_le (by omega)).mpr rfl)

end Code

/-! ## Going there -/

/-- A switch takes the key off the stack and jumps. -/
theorem LocalInstr.run_of_switchOffset? {instr : LocalInstr} {frame : Frame} {key : Int32}
    {rest : List Value} {offset : Int} (switch : instr.switchOffset? key.toInt = some offset)
    (length : Nat) (slots : frame.stack.slots = .int key :: rest) :
    ∃ stack : OperandStack,
      instr.run length frame = FrameM.jump offset { frame with stack := stack } ∧
        stack.slots = rest ∧ stack.capacity = frame.stack.capacity := by
  obtain ⟨stack, taken, same⟩ := FrameM.popInt_of_slots frame slots
  refine ⟨stack, ?_, same⟩
  unfold switchOffset? at switch
  split at switch <;> cases switch
  · exact bind_of_ok taken
  · exact bind_of_ok taken

namespace Exec

open Machine

variable {machine : Machine} {top : Frame} {below : List Frame} {length : Nat} {key : Int32}
  {rest : List Value}

theorem next?_switch (opcode : top.method.code[top.bci]? = some 0xaa ∨
      top.method.code[top.bci]? = some 0xab)
    (measured : top.method.code.instructionLength? top.method.code.size top.bci = some length) :
    ∃ instr : LocalInstr, top.next? = some (.inFrame instr, length) ∧
      (∀ key, ∃ offset, instr.switchOffset? key = some offset) ∧ ∀ key offset,
        top.method.code.SwitchesBy top.bci key offset ↔ instr.switchOffset? key = some offset := by
  rcases opcode with table | lookup
  · have byte : (top.method.code.byteAt top.bci).toNat = 0xaa := by
      rw [Code.byteAt_of_getElem? table]
      decide
    refine ⟨Instr.tableSwitch top.method.code top.bci, ?_, fun _ => ⟨_, rfl⟩,
      fun _ _ => Code.switchOffset?_table table measured⟩
    rw [Frame.next?_eq_decode table (by decide) measured, Instr.decode_table byte]
  · have byte : (top.method.code.byteAt top.bci).toNat = 0xab := by
      rw [Code.byteAt_of_getElem? lookup]
      decide
    refine ⟨Instr.lookupSwitch top.method.code top.bci, ?_, fun _ => ⟨_, rfl⟩,
      fun _ _ => Code.switchOffset?_lookup lookup measured⟩
    rw [Frame.next?_eq_decode lookup (by decide) measured, Instr.decode_lookup byte]

/-- A switch has an offset for every key by its table, and a step that executes it goes there. The
key is taken off the stack and all else stays as it is; a target outside of the code is a fault. -/
theorem step_switches (frames : machine.thread.frames = top :: below)
    (opcode : top.method.code[top.bci]? = some 0xaa ∨ top.method.code[top.bci]? = some 0xab)
    (measured : top.method.code.instructionLength? top.method.code.size top.bci = some length)
    (slots : top.stack.slots = .int key :: rest) :
    (∃ offset, top.method.code.SwitchesBy top.bci key.toInt offset) ∧
    ∀ offset, top.method.code.SwitchesBy top.bci key.toInt offset →
      ∃ (stack : OperandStack) (log : List String),
        stack.slots = rest ∧ stack.capacity = top.stack.capacity ∧
        (0 ≤ top.bci + offset ∧ top.bci + offset < top.method.codeSize →
          step machine = .ok none ({ machine with log := log }.withTop
            { top with bci := (top.bci + offset).toNat, stack := stack })) ∧
        (¬ (0 ≤ top.bci + offset ∧ top.bci + offset < top.method.codeSize) →
          ∃ fault, step machine = .error (.fault fault) ({ machine with log := log }.withTop
            { top with stack := stack }) ∧ fault.kind = .frame ∧
              fault.cause = .branchTarget (top.bci + offset) top.method.codeSize) := by
  obtain ⟨instr, next, total, same⟩ := next?_switch opcode measured
  simp only [same]
  refine ⟨total key.toInt, fun offset switch => ?_⟩
  obtain ⟨stack, run, left, capacity⟩ := instr.run_of_switchOffset? switch length slots
  rw [FrameM.jump_eq] at run
  by_cases inside : 0 ≤ top.bci + offset ∧ top.bci + offset < top.method.codeSize
  · rw [if_neg (by dsimp only; omega)] at run
    obtain ⟨log, stepped⟩ := step_of_run frames next run
    exact ⟨stack, log, left, capacity, fun _ => stepped, fun outside => absurd inside outside⟩
  · rw [if_pos (by dsimp only; omega)] at run
    obtain ⟨log, fault, stepped, cause⟩ := step_of_run_error frames next run
    exact ⟨stack, log, left, capacity, fun inside' => absurd inside' inside,
      fun _ => ⟨fault, stepped, congrArg Cause.kind cause, cause⟩⟩

/-- A frame in front of a `tableswitch` with two bytes of padding: it goes back to the start for -1
and to the end for 0. -/
def choosing : Frame :=
  let code : Code := #[26, 170, 0, 0, 0, 0, 0, 23, 255, 255, 255, 255, 0, 0, 0, 0,
    255, 255, 255, 255, 0, 0, 0, 24, 3, 172]
  let method : Method := ⟨⟨1, "choose"⟩, ⟨2, "(I)I"⟩, .ofNat 0x0009,
    { Body.empty with maxStack := 1, maxLocals := 1, code := code }, 1, .int, none, none⟩
  { Frame.start method with bci := 1, stack := (OperandStack.empty 1).raise [.int (-1)] }

theorem step_switches_choosing :
    choosing.method.code.SwitchesBy 1 (-1) (-1) ∧
    ∃ (machine : Machine) (stack : OperandStack) (log : List String),
      machine.thread.frames = [choosing] ∧ stack.slots = [] ∧
      step machine = .ok none ({ machine with log := log }.withTop
        { choosing with bci := 0, stack := stack }) := by
  have padded : Code.PadsTo 1 4 := ⟨by decide, by decide, by decide⟩
  have low : choosing.method.code.HoldsInt (4 + 4) (-1) :=
    ⟨_, _, _, _, rfl, rfl, rfl, rfl, by decide⟩
  have high : choosing.method.code.HoldsInt (4 + 8) 0 :=
    ⟨_, _, _, _, rfl, rfl, rfl, rfl, by decide⟩
  have switches : choosing.method.code.SwitchesBy 1 (-1) (-1) :=
    .entry rfl padded ⟨low, high⟩ (by decide) ⟨_, _, _, _, rfl, rfl, rfl, rfl, by decide⟩
  let machine := (blank .standard .empty (.empty 0)).pushFrame choosing
  have frames : machine.thread.frames = [choosing] := rfl
  have measured : choosing.method.code.instructionLength? choosing.method.code.size choosing.bci =
      some 23 := by decide +kernel
  have slots : choosing.stack.slots = [.int (-1)] := rfl
  obtain ⟨stack, log, left, -, inside, -⟩ :=
    (step_switches frames (.inl rfl) measured slots).2 (-1) switches
  exact ⟨switches, machine, stack, log, frames, left, inside (by decide)⟩

end Exec

end Jvm
