/-
# Jvm.Proofs.BigEndian — big-endian numbers and the other byte order

A machine may keep the least significant byte of a word first. It reads a big-endian number by
loading the bytes as a word of its own order and swapping the bytes of the word, and writes one by
swapping and storing. `swap_load` and `store_swap` say that this is `BigEndian.decode` and
`BigEndian.encode`, whatever the width, and `encode_decode` that a number that has been read is
written as the bytes that it was read from.
-/
import Jvm.BigEndian
import Mathlib.Algebra.GroupWithZero.Nat
import Mathlib.Data.List.Induction

namespace Jvm

set_option autoImplicit false

namespace LittleEndian

/-- The low `width` bytes of a word, the least significant one first. -/
def store : Nat → Nat → List UInt8
  | 0, _ => []
  | width + 1, word => word.toUInt8 :: store width (word / 256)

def load (bytes : List UInt8) : Nat :=
  bytes.foldr (fun byte word => word * 256 + byte.toNat) 0

/-- The low `width` bytes of a word in the opposite order. -/
def swap (width word : Nat) : Nat := load (store width word).reverse

@[simp] theorem length_store (width word : Nat) : (store width word).length = width := by
  induction width generalizing word with
  | zero => rfl
  | succ width ih => simp [store, ih]

theorem store_load (bytes : List UInt8) : store bytes.length (load bytes) = bytes := by
  induction bytes with
  | nil => rfl
  | cons byte bytes ih =>
      have split : load (byte :: bytes) = load bytes * 256 + byte.toNat := rfl
      have below := byte.toNat_lt
      have high : load (byte :: bytes) / 256 = load bytes := by omega
      have low : (load (byte :: bytes)).toUInt8 = byte := by
        apply UInt8.toNat_inj.mp
        rw [split, Nat.toUInt8_eq, UInt8.toNat_ofNat']
        omega
      rw [List.length_cons, store, low, high, ih]

theorem encode_eq_reverse (width value : Nat) :
    BigEndian.encode width value = (store width value).reverse := by
  induction width generalizing value with
  | zero => rfl
  | succ width ih => rw [BigEndian.encode, ih, store, List.reverse_cons]

theorem decode_eq_load (bytes : List UInt8) : BigEndian.decode bytes = load bytes.reverse := by
  rw [load, List.foldr_reverse]
  rfl

/-- To read a big-endian number is to load a word and swap its bytes. -/
theorem swap_load (bytes : List UInt8) :
    swap bytes.length (load bytes) = BigEndian.decode bytes := by
  rw [swap, store_load, decode_eq_load]

/-- To write a big-endian number is to swap the bytes of a word and store it. -/
theorem store_swap (width value : Nat) :
    store width (swap width value) = BigEndian.encode width value := by
  have stored := store_load (store width value).reverse
  rw [List.length_reverse, length_store] at stored
  rw [swap, stored, encode_eq_reverse]

end LittleEndian

namespace BigEndian

open LittleEndian

theorem decode_lt (bytes : List UInt8) : decode bytes < 256 ^ bytes.length := by
  induction bytes using List.reverseRecOn with
  | nil => simp [decode]
  | append_singleton bytes byte ih =>
      rw [decode_append_single, List.length_append, List.length_singleton, Nat.pow_succ]
      have := byte.toNat_lt
      omega

theorem encode_decode (bytes : List UInt8) : encode bytes.length (decode bytes) = bytes := by
  have stored := store_load bytes.reverse
  rw [List.length_reverse] at stored
  rw [encode_eq_reverse, decode_eq_load, stored, List.reverse_reverse]

end BigEndian

end Jvm
