/-
# Jvm.Options.Numeral — numbers in option values

A number in an option may follow blanks and a sign. `Numeral.read?` reads one from the
front of a text and keeps what follows it. A number out of the range of its use is not an
error of reading: a size stops at the greatest 64-bit word and a negative one counts
down from the top, as `word` says.
-/
namespace Jvm

set_option autoImplicit false

structure Numeral where
  negative : Bool
  magnitude : Nat
  rest : List Char
  deriving DecidableEq, Repr

namespace Numeral

def isBlank (c : Char) : Bool :=
  c == ' ' || c == '\t' || c == '\n' || c == '\x0b' || c == '\x0c' || c == '\r'

def isSign (c : Char) : Bool := c == '+' || c == '-'

/-- The value of decimal digits. -/
def decimal (digits : List Char) : Nat :=
  digits.foldl (fun value digit => value * 10 + (digit.toNat - '0'.toNat)) 0

/-- A number with its blanks and sign at the front of a text. -/
def read? (text : List Char) : Option Numeral :=
  let unpadded := text.dropWhile isBlank
  let unsigned :=
    match unpadded with
    | [] => []
    | c :: rest => if isSign c then rest else c :: rest
  let digits := unsigned.takeWhile Char.isDigit
  if digits.isEmpty then none
  else some ⟨unpadded.head? == some '-', decimal digits, unsigned.dropWhile Char.isDigit⟩

def value (numeral : Numeral) : Int :=
  if numeral.negative then -(numeral.magnitude : Int) else numeral.magnitude

/-- The number as an unsigned 64-bit word. -/
def word (numeral : Numeral) : UInt64 :=
  if 0xffffffffffffffff < numeral.magnitude then 0xffffffffffffffff
  else if numeral.negative then -numeral.magnitude.toUInt64
  else numeral.magnitude.toUInt64

end Numeral

end Jvm
