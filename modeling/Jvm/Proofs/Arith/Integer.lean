/-
# Jvm.Proofs.Arith.Integer — integer instructions as arithmetic of numbers

What an integer instruction gives is said here by the numbers that its operands stand for, with
`Law` for each kind of operation and a width of the words: sums, differences and products are right
modulo a power of two, quotients are truncated, shifts multiply and divide by a power of two, and
the bitwise operations are right bit by bit. The operations are written and their laws are proved
once for words of any width (`ArithOp.word_law` and its like); those of `int` and `long` are
instances (`ArithOp.int_eq_word`, `ArithOp.long_eq_word`). The only quotient that is no word is
never taken (`Divides`).
-/
import Mathlib.Algebra.Order.Group.Unbundled.Int
import Mathlib.Data.Int.ModEq
import Jvm.Arith.Integer

namespace Jvm

set_option autoImplicit false

/-! ## The laws -/

/-- A word of the width can stand for the number. -/
def FitsWord (width : Nat) (n : Int) : Prop := -2 ^ (width - 1) ≤ n ∧ n < 2 ^ (width - 1)

/-- The quotient of two words, truncated toward zero. It is a word itself, unless the least word is
divided by minus one. -/
structure Divides (width : Nat) (a b q : Int) : Prop where
  truncated : ¬ (a = -2 ^ (width - 1) ∧ b = -1) → FitsWord width (a.tdiv b) ∧ q = a.tdiv b
  least : a = -2 ^ (width - 1) → b = -1 → q = a

/-- The remainder that goes with the quotient. -/
structure Leaves (width : Nat) (a b r : Int) : Prop where
  whole : ∃ q, Divides width a b q ∧ a ≡ q * b + r [ZMOD 2 ^ width]
  sign : r = 0 ∨ r.sign = a.sign
  small : |r| < |b|

def ArithOp.Law (width : Nat) : ArithOp → Int → Int → Int → Prop
  | .add, a, b, r => r ≡ a + b [ZMOD 2 ^ width]
  | .sub, a, b, r => r ≡ a - b [ZMOD 2 ^ width]
  | .mul, a, b, r => r ≡ a * b [ZMOD 2 ^ width]
  | .div, a, b, r => Divides width a b r
  | .rem, a, b, r => Leaves width a b r

/-- A bit of a number in two's complement. -/
def wordBit (width : Nat) (n : Int) (i : Nat) : Bool := (n % 2 ^ width).toNat.testBit i

def BitOp.Law (width : Nat) (op : BitOp) (a b r : Int) : Prop :=
  ∀ i < width, wordBit width r i =
    match op with
    | .and => wordBit width a i && wordBit width b i
    | .or => wordBit width a i || wordBit width b i
    | .xor => wordBit width a i ^^ wordBit width b i

/-- How far a count shifts, by its low bits. -/
def shiftCount (width : Nat) (count : Int) : Nat := (count % width).toNat

/-- Quotients are rounded down. -/
def ShiftOp.Law (width : Nat) (op : ShiftOp) (a count r : Int) : Prop :=
  match op with
  | .left => r ≡ a * 2 ^ shiftCount width count [ZMOD 2 ^ width]
  | .right => r = a / 2 ^ shiftCount width count
  | .rightUnsigned => r ≡ a % 2 ^ width / 2 ^ shiftCount width count [ZMOD 2 ^ width]

/-! ## Words of any width -/

variable {w : Nat}

theorem bmod_modEq (n : Int) (w : Nat) : n.bmod (2 ^ w) ≡ n [ZMOD 2 ^ w] := by
  have cast : ((2 ^ w : Nat) : Int) = 2 ^ w := by norm_cast
  rw [Int.ModEq, ← cast]
  exact Int.bmod_emod

theorem fitsWord_toInt (a : BitVec w) : FitsWord w a.toInt := ⟨a.le_toInt, a.toInt_lt⟩

theorem toNat_eq_emod (a : BitVec w) : (a.toNat : Int) = a.toInt % 2 ^ w := by
  rw [BitVec.toInt_eq_toNat_bmod]
  have cast : ((2 ^ w : Nat) : Int) = 2 ^ w := by norm_cast
  rw [← cast, Int.bmod_emod]
  exact (Int.emod_eq_of_lt (Int.natCast_nonneg _) (Int.ofNat_lt.mpr a.isLt)).symm

theorem toInt_modEq_toNat (a : BitVec w) : a.toInt ≡ a.toNat [ZMOD 2 ^ w] := by
  rw [toNat_eq_emod]
  exact (Int.mod_modEq _ _).symm

theorem wordBit_toInt (a : BitVec w) (i : Nat) : wordBit w a.toInt i = a.getLsbD i := by
  rw [wordBit, ← toNat_eq_emod]
  rfl

theorem add_law (a b : BitVec w) : ArithOp.add.Law w a.toInt b.toInt (a + b).toInt := by
  rw [BitVec.toInt_add]
  exact bmod_modEq _ w

theorem sub_law (a b : BitVec w) : ArithOp.sub.Law w a.toInt b.toInt (a - b).toInt := by
  rw [BitVec.toInt_sub]
  exact bmod_modEq _ w

theorem mul_law (a b : BitVec w) : ArithOp.mul.Law w a.toInt b.toInt (a * b).toInt := by
  rw [BitVec.toInt_mul]
  exact bmod_modEq _ w

theorem neg_law (a : BitVec w) : (-a).toInt ≡ -a.toInt [ZMOD 2 ^ w] := by
  rw [BitVec.toInt_neg]
  exact bmod_modEq _ w

/-! ### Division -/

theorem toInt_eq_least {a : BitVec w} (some : 0 < w) :
    a.toInt = -2 ^ (w - 1) ↔ a = BitVec.intMin w := by
  have least : (BitVec.intMin w).toInt = -2 ^ (w - 1) := by
    have half : 2 ^ (w - 1) < 2 ^ w := Nat.pow_lt_pow_right (by decide) (by omega)
    rw [BitVec.toInt_intMin, Nat.mod_eq_of_lt half]
    norm_cast
  rw [← least, BitVec.toInt_inj]

/-- Negation is division by minus one. -/
theorem neg_divides (a : BitVec w) (some : 0 < w) : Divides w a.toInt (-1) (-a).toInt where
  truncated other := by
    have negated : (-a).toInt = -a.toInt :=
      BitVec.toInt_neg_of_ne_intMin fun least => other ⟨(toInt_eq_least some).mpr least, rfl⟩
    have quotient : a.toInt.tdiv (-1) = -a.toInt := by rw [Int.tdiv_neg, Int.tdiv_one]
    rw [quotient, ← negated]
    exact ⟨fitsWord_toInt _, rfl⟩
  least least _ := by
    rw [(toInt_eq_least some).mp least, BitVec.neg_intMin]

theorem sdiv_divides (a b : BitVec w) (some : 0 < w) (other : b.toInt ≠ -1) :
    Divides w a.toInt b.toInt (a.sdiv b).toInt where
  truncated _ := by
    have notMinus : b ≠ -1#w := by
      rintro rfl
      rw [BitVec.neg_one_eq_allOnes, BitVec.toInt_allOnes, if_pos some] at other
      exact other rfl
    have quotient := BitVec.toInt_sdiv_of_ne_or_ne a b (.inr notMinus)
    rw [← quotient]
    exact ⟨fitsWord_toInt _, rfl⟩
  least _ minus := absurd minus other

theorem srem_leaves (a b : BitVec w) (some : 0 < w) (nonzero : b.toInt ≠ 0)
    (other : b.toInt ≠ -1) : Leaves w a.toInt b.toInt (a.srem b).toInt where
  whole := by
    have quotient := (sdiv_divides a b some other).truncated fun least => other least.2
    refine ⟨_, sdiv_divides a b some other, ?_⟩
    rw [quotient.2, BitVec.toInt_srem, Int.tmod_def]
    have same : a.toInt.tdiv b.toInt * b.toInt + (a.toInt - b.toInt * a.toInt.tdiv b.toInt) =
        a.toInt := by rw [mul_comm, add_sub_cancel]
    rw [same]
  sign := by
    rw [BitVec.toInt_srem, Int.sign_tmod]
    by_cases whole : b.toInt ∣ a.toInt
    · exact .inl (Int.tmod_eq_zero_of_dvd whole)
    · exact .inr (if_neg whole)
  small := by
    rw [BitVec.toInt_srem, Int.abs_eq_natAbs, Int.abs_eq_natAbs, Int.natAbs_tmod]
    exact_mod_cast Nat.mod_lt _ (Int.natAbs_pos.mpr nonzero)

theorem zero_leaves (a : BitVec w) (some : 0 < w) : Leaves w a.toInt (-1) 0 where
  whole := by
    refine ⟨_, neg_divides a some, ?_⟩
    have negated := ((neg_law a).mul_right (-1)).symm
    rwa [neg_mul_neg, mul_one, ← add_zero ((-a).toInt * -1)] at negated
  sign := .inl rfl
  small := by decide

/-! ### Bits -/

theorem and_law (a b : BitVec w) : BitOp.and.Law w a.toInt b.toInt (a &&& b).toInt := by
  intro i _
  rw [wordBit_toInt, wordBit_toInt, wordBit_toInt, BitVec.getLsbD_and]

theorem or_law (a b : BitVec w) : BitOp.or.Law w a.toInt b.toInt (a ||| b).toInt := by
  intro i _
  rw [wordBit_toInt, wordBit_toInt, wordBit_toInt, BitVec.getLsbD_or]

theorem xor_law (a b : BitVec w) : BitOp.xor.Law w a.toInt b.toInt (a ^^^ b).toInt := by
  intro i _
  rw [wordBit_toInt, wordBit_toInt, wordBit_toInt, BitVec.getLsbD_xor]

/-! ### Shifts -/

theorem shiftLeft_law (a : BitVec w) (count : Int) :
    ShiftOp.left.Law w a.toInt count (a <<< shiftCount w count).toInt := by
  have product : ((a.toNat <<< shiftCount w count : Nat) : Int) =
      a.toNat * 2 ^ shiftCount w count := by
    rw [Nat.shiftLeft_eq]
    norm_cast
  show _ ≡ _ [ZMOD _]
  rw [BitVec.toInt_shiftLeft, product]
  exact (bmod_modEq _ w).trans ((toInt_modEq_toNat a).symm.mul_right _)

theorem sshiftRight_law (a : BitVec w) (count : Int) :
    ShiftOp.right.Law w a.toInt count (a.sshiftRight (shiftCount w count)).toInt := by
  show (a.sshiftRight _).toInt = _
  rw [BitVec.toInt_sshiftRight, Int.shiftRight_eq_div_pow]
  norm_cast

theorem ushiftRight_law (a : BitVec w) (count : Int) :
    ShiftOp.rightUnsigned.Law w a.toInt count (a >>> shiftCount w count).toInt := by
  have quotient : (((a >>> shiftCount w count).toNat : Nat) : Int) =
      a.toInt % 2 ^ w / 2 ^ shiftCount w count := by
    rw [BitVec.toNat_ushiftRight, Nat.shiftRight_eq_div_pow, ← toNat_eq_emod]
    norm_cast
  show _ ≡ _ [ZMOD _]
  rw [← quotient]
  exact toInt_modEq_toNat _

/-- The remainder of a signed count. -/
theorem toNat_smod (count : BitVec w) {limit : BitVec w} {n : Nat} (some : 0 < n)
    (same : limit.toInt = n) (fits : n ≤ 2 ^ w) :
    (count.smod limit).toNat = shiftCount n count.toInt := by
  have cast : (2 : Int) ^ w = ((2 ^ w : Nat) : Int) := by norm_cast
  have low := Int.emod_nonneg count.toInt (Int.natCast_ne_zero.mpr some.ne')
  have high := Int.emod_lt_of_pos count.toInt (Int.natCast_pos.mpr some)
  have value : (((count.smod limit).toNat : Nat) : Int) = count.toInt % n := by
    rw [toNat_eq_emod, BitVec.toInt_smod, same, Int.fmod_eq_emod_of_nonneg _ (by omega), cast]
    exact Int.emod_eq_of_lt low (by omega)
  unfold shiftCount
  omega

/-- The remainder of an unsigned count. -/
theorem toNat_umod (count : BitVec w) {limit : BitVec w} {n : Nat} (same : limit.toNat = n)
    (whole : n ∣ 2 ^ w) : (count % limit).toNat = shiftCount n count.toInt := by
  have divides : (n : Int) ∣ 2 ^ w := by exact_mod_cast whole
  have value : (((count % limit).toNat : Nat) : Int) = count.toInt % n := by
    rw [BitVec.toNat_umod, same, Int.natCast_emod, toNat_eq_emod, Int.emod_emod_of_dvd _ divides]
  unfold shiftCount
  omega

/-! ### The operations -/

def ArithOp.word (op : ArithOp) (a b : BitVec w) : Option (BitVec w) :=
  match op with
  | .add => some (a + b)
  | .sub => some (a - b)
  | .mul => some (a * b)
  | .div => if b.toInt = 0 then none else some (if b.toInt = -1 then -a else a.sdiv b)
  | .rem => if b.toInt = 0 then none else some (if b.toInt = -1 then 0 else a.srem b)

theorem ArithOp.word_law {op : ArithOp} {a b r : BitVec w} (positive : 0 < w)
    (given : op.word a b = some r) : op.Law w a.toInt b.toInt r.toInt := by
  cases op with
  | add => cases given; exact add_law a b
  | sub => cases given; exact sub_law a b
  | mul => cases given; exact mul_law a b
  | div =>
      obtain ⟨-, same⟩ := Option.ite_none_left_eq_some.mp given
      obtain rfl := Option.some.inj same
      by_cases minus : b.toInt = -1
      · rw [if_pos minus, minus]
        exact neg_divides a positive
      · rw [if_neg minus]
        exact sdiv_divides a b positive minus
  | rem =>
      obtain ⟨nonzero, same⟩ := Option.ite_none_left_eq_some.mp given
      obtain rfl := Option.some.inj same
      by_cases minus : b.toInt = -1
      · rw [if_pos minus, minus, BitVec.ofNat_eq_ofNat, BitVec.toInt_zero]
        exact zero_leaves a positive
      · rw [if_neg minus]
        exact srem_leaves a b positive nonzero minus

theorem ArithOp.word_eq_none {op : ArithOp} {a b : BitVec w} :
    op.word a b = none ↔ (op = .div ∨ op = .rem) ∧ b.toInt = 0 := by
  cases op <;> simp [word]

def BitOp.word (op : BitOp) (a b : BitVec w) : BitVec w :=
  match op with
  | .and => a &&& b
  | .or => a ||| b
  | .xor => a ^^^ b

theorem BitOp.word_law (op : BitOp) (a b : BitVec w) :
    op.Law w a.toInt b.toInt (op.word a b).toInt := by
  cases op with
  | and => exact and_law a b
  | or => exact or_law a b
  | xor => exact xor_law a b

def ShiftOp.word (op : ShiftOp) (a : BitVec w) (places : Nat) : BitVec w :=
  match op with
  | .left => a <<< places
  | .right => a.sshiftRight places
  | .rightUnsigned => a >>> places

theorem ShiftOp.word_law (op : ShiftOp) (a : BitVec w) (count : Int) :
    op.Law w a.toInt count (op.word a (shiftCount w count)).toInt := by
  cases op with
  | left => exact shiftLeft_law a count
  | right => exact sshiftRight_law a count
  | rightUnsigned => exact ushiftRight_law a count

/-! ## The operations of `int` and `long` -/

theorem ArithOp.int_eq_word (op : ArithOp) (a b : Int32) :
    (op.int a b).map Int32.toBitVec = op.word a.toBitVec b.toBitVec := by
  have zero : b.toBitVec.toInt = 0 ↔ b = 0 := @Int32.toInt_inj b 0
  have minus : b.toBitVec.toInt = -1 ↔ b = -1 := @Int32.toInt_inj b (-1)
  cases op with
  | add => rfl
  | sub => rfl
  | mul => rfl
  | div => simp only [int, word, zero, minus]; split <;> [rfl; split <;> rfl]
  | rem => simp only [int, word, zero, minus]; split <;> [rfl; split <;> rfl]

theorem ArithOp.int_law {op : ArithOp} {a b r : Int32} (given : op.int a b = some r) :
    op.Law 32 a.toInt b.toInt r.toInt := by
  refine word_law (by decide) (?_ : op.word a.toBitVec b.toBitVec = some r.toBitVec)
  rw [← int_eq_word, given, Option.map_some]

theorem ArithOp.int_eq_none {op : ArithOp} {a b : Int32} :
    op.int a b = none ↔ (op = .div ∨ op = .rem) ∧ b.toInt = 0 := by
  rw [← Option.map_eq_none_iff, int_eq_word, word_eq_none]
  rfl

theorem ArithOp.long_eq_word (op : ArithOp) (a b : Int64) :
    (op.long a b).map Int64.toBitVec = op.word a.toBitVec b.toBitVec := by
  have zero : b.toBitVec.toInt = 0 ↔ b = 0 := @Int64.toInt_inj b 0
  have minus : b.toBitVec.toInt = -1 ↔ b = -1 := @Int64.toInt_inj b (-1)
  cases op with
  | add => rfl
  | sub => rfl
  | mul => rfl
  | div => simp only [long, word, zero, minus]; split <;> [rfl; split <;> rfl]
  | rem => simp only [long, word, zero, minus]; split <;> [rfl; split <;> rfl]

theorem ArithOp.long_law {op : ArithOp} {a b r : Int64} (given : op.long a b = some r) :
    op.Law 64 a.toInt b.toInt r.toInt := by
  refine word_law (by decide) (?_ : op.word a.toBitVec b.toBitVec = some r.toBitVec)
  rw [← long_eq_word, given, Option.map_some]

theorem ArithOp.long_eq_none {op : ArithOp} {a b : Int64} :
    op.long a b = none ↔ (op = .div ∨ op = .rem) ∧ b.toInt = 0 := by
  rw [← Option.map_eq_none_iff, long_eq_word, word_eq_none]
  rfl

theorem BitOp.int_eq_word (op : BitOp) (a b : Int32) :
    (op.int a b).toBitVec = op.word a.toBitVec b.toBitVec := by
  cases op <;> rfl

theorem BitOp.int_law (op : BitOp) (a b : Int32) :
    op.Law 32 a.toInt b.toInt (op.int a b).toInt := by
  have law := op.word_law a.toBitVec b.toBitVec
  rwa [← int_eq_word] at law

theorem BitOp.long_eq_word (op : BitOp) (a b : Int64) :
    (op.long a b).toBitVec = op.word a.toBitVec b.toBitVec := by
  cases op <;> rfl

theorem BitOp.long_law (op : BitOp) (a b : Int64) :
    op.Law 64 a.toInt b.toInt (op.long a b).toInt := by
  have law := op.word_law a.toBitVec b.toBitVec
  rwa [← long_eq_word] at law

/-- The signed shifts reduce a signed count, and the unsigned one the bits of it. -/
theorem ShiftOp.int_eq_word (op : ShiftOp) (a count : Int32) :
    (op.int a count).toBitVec = op.word a.toBitVec (shiftCount 32 count.toInt) := by
  have signed : (count.toBitVec.smod 32).toNat = shiftCount 32 count.toInt :=
    toNat_smod count.toBitVec (by decide) rfl (by decide)
  have unsigned : (count.toBitVec % 32#32).toNat = shiftCount 32 count.toInt :=
    toNat_umod count.toBitVec rfl (by decide)
  cases op with
  | left => rw [← signed]; rfl
  | right => rw [← signed]; rfl
  | rightUnsigned => rw [← unsigned]; rfl

theorem ShiftOp.int_law (op : ShiftOp) (a count : Int32) :
    op.Law 32 a.toInt count.toInt (op.int a count).toInt := by
  have law := op.word_law a.toBitVec count.toInt
  rwa [← int_eq_word] at law

theorem ShiftOp.long_eq_word (op : ShiftOp) (a : Int64) (count : Int32) :
    (op.long a count).toBitVec = op.word a.toBitVec (shiftCount 64 count.toInt) := by
  have signed : (count.toInt64.toBitVec.smod 64).toNat = shiftCount 64 count.toInt := by
    rw [← Int32.toInt_toInt64]
    exact toNat_smod count.toInt64.toBitVec (by decide) rfl (by decide)
  have unsigned : (count.toInt64.toBitVec % 64#64).toNat = shiftCount 64 count.toInt := by
    rw [← Int32.toInt_toInt64]
    exact toNat_umod count.toInt64.toBitVec rfl (by decide)
  cases op with
  | left => rw [← signed]; rfl
  | right => rw [← signed]; rfl
  | rightUnsigned => rw [← unsigned]; rfl

theorem ShiftOp.long_law (op : ShiftOp) (a : Int64) (count : Int32) :
    op.Law 64 a.toInt count.toInt (op.long a count).toInt := by
  have law := op.word_law a.toBitVec count.toInt
  rwa [← long_eq_word] at law

/-! ## Conversions and comparison -/

theorem narrowByte_law (v : Int32) :
    FitsWord 8 (narrowByte v).toInt ∧ (narrowByte v).toInt ≡ v.toInt [ZMOD 2 ^ 8] := by
  rw [narrowByte, Int8.toInt_toInt32]
  refine ⟨fitsWord_toInt v.toInt8.toBitVec, ?_⟩
  rw [Int32.toInt_toInt8]
  exact bmod_modEq _ 8

theorem narrowShort_law (v : Int32) :
    FitsWord 16 (narrowShort v).toInt ∧ (narrowShort v).toInt ≡ v.toInt [ZMOD 2 ^ 16] := by
  rw [narrowShort, Int16.toInt_toInt32]
  refine ⟨fitsWord_toInt v.toInt16.toBitVec, ?_⟩
  rw [Int32.toInt_toInt16]
  exact bmod_modEq _ 16

theorem narrowChar_law (v : Int32) : (narrowChar v).toInt = v.toInt % 2 ^ 16 := by
  have low : (narrowChar v).toBitVec.toNat = v.toBitVec.toNat % 2 ^ 16 := by
    show ((v.toBitVec.setWidth 16).setWidth 32).toNat = _
    rw [BitVec.toNat_setWidth, BitVec.toNat_setWidth]
    omega
  have word : (v.toBitVec.toNat : Int) = v.toInt % 2 ^ 32 := toNat_eq_emod v.toBitVec
  have value : (narrowChar v).toInt = (narrowChar v).toBitVec.toNat :=
    BitVec.toInt_eq_toNat_of_lt (by omega)
  omega

theorem toInt_compareLong (a b : Int64) : (compareLong a b).toInt = (a.toInt - b.toInt).sign := by
  unfold compareLong
  split
  · rename_i less
    have negative := Int64.lt_iff_toInt_lt.mp less
    rw [Int.sign_eq_neg_one_of_neg (by omega)]
    rfl
  · rename_i notLess
    split
    · rename_i same
      rw [same, Int.sub_self]
      rfl
    · rename_i different
      have notNegative := mt Int64.lt_iff_toInt_lt.mpr notLess
      have apart := mt Int64.toInt_inj.mp different
      rw [Int.sign_eq_one_of_pos (by omega)]
      rfl

end Jvm
