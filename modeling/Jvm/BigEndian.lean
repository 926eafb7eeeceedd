/-
# Jvm.BigEndian — numbers as bytes, the most significant byte first

Class files and code arrays write every number of more than one byte with its most
significant byte first. `encode` writes a number in a given count of bytes and
`decode` reads bytes as a number.
-/
namespace Jvm.BigEndian

set_option autoImplicit false

/-- The low `width` bytes of a number. -/
def encode : Nat → Nat → List UInt8
  | 0, _ => []
  | width + 1, value => encode width (value / 256) ++ [value.toUInt8]

def decode (bytes : List UInt8) : Nat :=
  bytes.foldl (fun value byte => value * 256 + byte.toNat) 0

@[simp] theorem length_encode (width value : Nat) : (encode width value).length = width := by
  induction width generalizing value with
  | zero => rfl
  | succ width ih => simp [encode, ih]

theorem decode_append_single (bytes : List UInt8) (byte : UInt8) :
    decode (bytes ++ [byte]) = decode bytes * 256 + byte.toNat := by
  simp [decode]

theorem decode_encode (width value : Nat) : decode (encode width value) = value % Nat.pow 256 width := by
  induction width generalizing value with
  | zero => simp [encode, decode, Nat.mod_one]
  | succ width ih =>
      have low : value.toUInt8.toNat = value % 256 := by simp
      have step : Nat.pow 256 (width + 1) = 256 * Nat.pow 256 width := Nat.mul_comm ..
      rw [encode, decode_append_single, ih, low, step, Nat.mod_mul]
      omega

end Jvm.BigEndian
