/-
# Jvm.Text — text made of bytes

Every text of the machine (names, descriptors, string constants, messages) is a
sequence of bytes. It is held as a `String` whose characters are `U+0000` to
`U+00FF`, one for each byte, so that texts can be compared and joined with the
library's own operations. A stored text ends before its first zero byte:
`upToNul` makes that cut, and `upToNul_upToNul` says that it is made once.

The rest of the module is layout: a bounded copy (`clip`), padding to a column
width, and hexadecimal digits.
-/
namespace Jvm.Text

set_option autoImplicit false

/-- The part of a text before its first zero byte. -/
def upToNul (text : String) : String :=
  String.ofList (text.toList.takeWhile (· != '\x00'))

theorem takeWhile_idem {α : Type} (keep : α → Bool) (xs : List α) :
    (xs.takeWhile keep).takeWhile keep = xs.takeWhile keep := by
  induction xs with
  | nil => rfl
  | cons x rest ih => by_cases h : keep x <;> simp [h, ih]

theorem upToNul_upToNul (text : String) : upToNul (upToNul text) = upToNul text := by
  simp [upToNul, takeWhile_idem]

/-- The first `limit` bytes of a text. -/
def clip (limit : Nat) (text : String) : String :=
  String.ofList (text.toList.take limit)

theorem length_clip_le (limit : Nat) (text : String) : (clip limit text).length ≤ limit := by
  rw [clip, ← String.length_toList, String.toList_ofList, List.length_take]
  exact Nat.min_le_left _ _

def ofBytes (bytes : List UInt8) : String :=
  String.ofList (bytes.map fun byte => Char.ofNat byte.toNat)

/-- Right-align a text in a column of the given width. -/
def alignRight (width : Nat) (fill : Char) (text : String) : String :=
  String.ofList (List.replicate (width - text.length) fill) ++ text

/-- Left-align a text in a column of the given width. -/
def alignLeft (width : Nat) (text : String) : String :=
  text ++ String.ofList (List.replicate (width - text.length) ' ')

/-- Lower-case hexadecimal digits, at least `width` of them. -/
def hex (width : Nat) (value : Nat) : String :=
  alignRight width '0' (String.ofList (Nat.toDigits 16 value))

/-- Upper-case hexadecimal digits, at least `width` of them. -/
def hexUpper (width : Nat) (value : Nat) : String :=
  (hex width value).map Char.toUpper

/-- Texts joined with a separator between neighbours. -/
def joinWith (separator : String) (texts : List String) : String :=
  separator.intercalate texts

def lines (texts : List String) : String :=
  String.join (texts.map (· ++ "\n"))

end Jvm.Text
