/-
# Jvm.StringTable — tables of interned strings

A table has a fixed number of chains. The hash of a text selects the chain that the text is
kept in, the latest text first. A text is looked up in its chain alone, and is compared only
with texts of the same hash.
-/
import Jvm.Value

namespace Jvm

set_option autoImplicit false

/-- An interned text, with its hash and the string object that stands for it. -/
structure StringTable.Entry where
  hash : UInt32
  text : String
  ref : Ref
  deriving DecidableEq, Repr

/-- The number of chains. -/
def StringTable.size : Nat := 251

structure StringTable where
  chains : Vector (List StringTable.Entry) StringTable.size
  /-- The number of entries. -/
  length : Nat
  deriving DecidableEq, Repr

namespace StringTable

def empty : StringTable := ⟨Vector.replicate size [], 0⟩

/-- The bytes of a text as the digits of a number to the base 31, kept in 32 bits. -/
def hash (text : String) : UInt32 := text.toList.foldl (fun h c => 31 * h + c.val) 0

/-- The chain that a hash selects. -/
def chainOf (hash : UInt32) : Fin size := ⟨hash.toNat % size, Nat.mod_lt _ (by decide)⟩

def find? (table : StringTable) (text : String) : Option Ref :=
  let code := hash text
  (table.chains[chainOf code].find? fun entry => entry.hash == code && entry.text == text).map
    (·.ref)

/-- Enter a text. Whether it is there already is not checked. -/
def insert (table : StringTable) (text : String) (ref : Ref) : StringTable :=
  let code := hash text
  let chain := table.chains[chainOf code]
  { chains := table.chains.set (chainOf code) (⟨code, text, ref⟩ :: chain)
    length := table.length + 1 }

end StringTable

end Jvm
