/-
# Jvm.Opcode — the one-byte operation codes

An opcode is a number below 256. `Opcode.table` lists the defined ones in order with
their mnemonic and the length of their instruction; length zero stands for an
instruction whose length depends on its operands. Not every defined opcode can be
executed: `traits?` is present exactly for the ones that can, and says whether the
instruction chooses the next instruction itself (`dispatches`) and whether it may
need more than its own frame (`callsMachine`).
-/
namespace Jvm

set_option autoImplicit false

namespace Opcode

/-- Mnemonic and instruction length of the opcodes from zero on. -/
def table : Array (String × Nat) :=
  #[("nop", 1), ("aconst_null", 1), ("iconst_m1", 1), ("iconst_0", 1), ("iconst_1", 1),
    ("iconst_2", 1), ("iconst_3", 1), ("iconst_4", 1), ("iconst_5", 1), ("lconst_0", 1),
    ("lconst_1", 1), ("fconst_0", 1), ("fconst_1", 1), ("fconst_2", 1), ("dconst_0", 1),
    ("dconst_1", 1), ("bipush", 2), ("sipush", 3), ("ldc", 2), ("ldc_w", 3), ("ldc2_w", 3),
    ("iload", 2), ("lload", 2), ("fload", 2), ("dload", 2), ("aload", 2), ("iload_0", 1),
    ("iload_1", 1), ("iload_2", 1), ("iload_3", 1), ("lload_0", 1), ("lload_1", 1),
    ("lload_2", 1), ("lload_3", 1), ("fload_0", 1), ("fload_1", 1), ("fload_2", 1),
    ("fload_3", 1), ("dload_0", 1), ("dload_1", 1), ("dload_2", 1), ("dload_3", 1),
    ("aload_0", 1), ("aload_1", 1), ("aload_2", 1), ("aload_3", 1), ("iaload", 1), ("laload", 1),
    ("faload", 1), ("daload", 1), ("aaload", 1), ("baload", 1), ("caload", 1), ("saload", 1),
    ("istore", 2), ("lstore", 2), ("fstore", 2), ("dstore", 2), ("astore", 2), ("istore_0", 1),
    ("istore_1", 1), ("istore_2", 1), ("istore_3", 1), ("lstore_0", 1), ("lstore_1", 1),
    ("lstore_2", 1), ("lstore_3", 1), ("fstore_0", 1), ("fstore_1", 1), ("fstore_2", 1),
    ("fstore_3", 1), ("dstore_0", 1), ("dstore_1", 1), ("dstore_2", 1), ("dstore_3", 1),
    ("astore_0", 1), ("astore_1", 1), ("astore_2", 1), ("astore_3", 1), ("iastore", 1),
    ("lastore", 1), ("fastore", 1), ("dastore", 1), ("aastore", 1), ("bastore", 1),
    ("castore", 1), ("sastore", 1), ("pop", 1), ("pop2", 1), ("dup", 1), ("dup_x1", 1),
    ("dup_x2", 1), ("dup2", 1), ("dup2_x1", 1), ("dup2_x2", 1), ("swap", 1), ("iadd", 1),
    ("ladd", 1), ("fadd", 1), ("dadd", 1), ("isub", 1), ("lsub", 1), ("fsub", 1), ("dsub", 1),
    ("imul", 1), ("lmul", 1), ("fmul", 1), ("dmul", 1), ("idiv", 1), ("ldiv", 1), ("fdiv", 1),
    ("ddiv", 1), ("irem", 1), ("lrem", 1), ("frem", 1), ("drem", 1), ("ineg", 1), ("lneg", 1),
    ("fneg", 1), ("dneg", 1), ("ishl", 1), ("lshl", 1), ("ishr", 1), ("lshr", 1), ("iushr", 1),
    ("lushr", 1), ("iand", 1), ("land", 1), ("ior", 1), ("lor", 1), ("ixor", 1), ("lxor", 1),
    ("iinc", 3), ("i2l", 1), ("i2f", 1), ("i2d", 1), ("l2i", 1), ("l2f", 1), ("l2d", 1),
    ("f2i", 1), ("f2l", 1), ("f2d", 1), ("d2i", 1), ("d2l", 1), ("d2f", 1), ("i2b", 1),
    ("i2c", 1), ("i2s", 1), ("lcmp", 1), ("fcmpl", 1), ("fcmpg", 1), ("dcmpl", 1), ("dcmpg", 1),
    ("ifeq", 3), ("ifne", 3), ("iflt", 3), ("ifge", 3), ("ifgt", 3), ("ifle", 3),
    ("if_icmpeq", 3), ("if_icmpne", 3), ("if_icmplt", 3), ("if_icmpge", 3), ("if_icmpgt", 3),
    ("if_icmple", 3), ("if_acmpeq", 3), ("if_acmpne", 3), ("goto", 3), ("jsr", 3), ("ret", 2),
    ("tableswitch", 0), ("lookupswitch", 0), ("ireturn", 1), ("lreturn", 1), ("freturn", 1),
    ("dreturn", 1), ("areturn", 1), ("return", 1), ("getstatic", 3), ("putstatic", 3),
    ("getfield", 3), ("putfield", 3), ("invokevirtual", 3), ("invokespecial", 3),
    ("invokestatic", 3), ("invokeinterface", 5), ("invokedynamic", 5), ("new", 3),
    ("newarray", 2), ("anewarray", 3), ("arraylength", 1), ("athrow", 1), ("checkcast", 3),
    ("instanceof", 3), ("monitorenter", 1), ("monitorexit", 1), ("wide", 0),
    ("multianewarray", 4), ("ifnull", 3), ("ifnonnull", 3), ("goto_w", 5), ("jsr_w", 5)]

def row? (code : Int) : Option (String × Nat) :=
  if 0 ≤ code then table[code.toNat]? else none

def isDefined (code : Int) : Bool := (row? code).isSome

def name (code : Int) : String :=
  match row? code with
  | some (mnemonic, _) => mnemonic
  | none => "<illegal>"

/-- The fixed length of an instruction: zero when it varies, nothing for an undefined opcode. -/
def length? (code : Int) : Option Nat := (row? code).map (·.2)

def within (low high code : Int) : Bool := low ≤ code && code ≤ high

def isReturn (code : Int) : Bool := within 0xac 0xb1 code

def isInvoke (code : Int) : Bool := within 0xb6 0xba code

def isBranch (code : Int) : Bool :=
  within 0x99 0xa7 code || within 0xc6 0xc8 code

structure Traits where
  dispatches : Bool
  callsMachine : Bool
  deriving DecidableEq, Repr

/-- The array, exception, type test, monitor and dynamic instructions are not executed. -/
def isExecutable (code : Int) : Bool :=
  within 0x00 0x2d code || within 0x36 0x4e code || within 0x57 0xa7 code ||
    within 0xaa 0xb9 code || code == 0xbb || within 0xc6 0xc8 code

def traits? (code : Int) : Option Traits :=
  if isExecutable code then
    some {
      dispatches :=
        isBranch code || isReturn code || within 0xaa 0xab code || within 0xb6 0xb9 code
      callsMachine := within 0x12 0x14 code || within 0xb2 0xb9 code || code == 0xbb }
  else none

end Opcode

end Jvm
