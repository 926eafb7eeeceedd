/-
# Jvm.Pool.Print — a pool as a listing

One line for each constant: its slot, its kind, and its content. Slot numbers that
point to texts are followed by the texts; the slot after a two-slot constant has no
line.
-/
import Jvm.Pool

namespace Jvm.Pool

set_option autoImplicit false

/-- A note with the texts that references point to, when all of them point to texts. -/
def textNote (pool : Pool) (indices : List Int) : String :=
  match indices.mapM pool.text? with
  | some texts => "  // " ++ Text.joinWith ":" texts
  | none => ""

/-- A word in hexadecimal digits. -/
def wordText (word : Nat) : String := "0x" ++ Text.hex 1 word

def content (pool : Pool) : Entry → String
  | .utf8 text => text
  | .integer v => toString v.toInt
  | .float bits => (Decimal.Format.single.decode bits.toNat).fixed 6 ++ "f"
  | .long v => toString v.toInt ++ "l"
  | .double bits => (Decimal.Format.double.decode bits.toNat).fixed 6 ++ "d"
  | .classRef name => s!"#{name}" ++ pool.textNote [name]
  | .string text => s!"#{text}" ++ pool.textNote [text]
  | .member _ parts => s!"#{parts.first}.#{parts.second}"
  | .nameAndType parts =>
      s!"#{parts.first}:#{parts.second}" ++ pool.textNote [parts.first, parts.second]
  | .methodType descriptor => wordText (UInt64.ofInt descriptor).toNat
  | .methodHandle parts | .dynamic parts | .invokeDynamic parts => wordText parts.word

def line (pool : Pool) (index : Nat) (slot : Option Entry) : String :=
  let tag := (slot.map Entry.tag).getD .invalid
  let body := match slot with
    | some entry => pool.content entry
    | none => "(unused)"
  "  #" ++ Text.alignLeft 4 (toString index) ++ " = " ++ Text.alignLeft 20 tag.name ++ " " ++ body

def linesFrom (pool : Pool) (index : Nat) (skip : Bool) : List (Option Entry) → List String
  | [] => []
  | slot :: rest =>
      if skip then pool.linesFrom (index + 1) false rest
      else
        pool.line index slot ::
          pool.linesFrom (index + 1) ((slot.map Entry.isWide).getD false) rest

def describe (pool : Pool) : String :=
  let header := s!"Constant Pool [{pool.length} entries]:"
  Text.lines (header :: pool.linesFrom 1 false (pool.slots.toList.drop 1))

end Jvm.Pool
