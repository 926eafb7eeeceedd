/-
# Jvm.Fault — a fault with the place where it arose

A fault is a cause together with the constant pool index it concerns and the place
in the running program. Both are noted once: the part that finds the fault names the
index, and the interpreter stamps the innermost place (`atSite_atSite` says that a second
stamp changes nothing). `render` is the text shown to a user, with bounded names and
a bounded message.
-/
import Jvm.Fault.Cause
import Jvm.Opcode

namespace Jvm

set_option autoImplicit false

/-- A place in a running program; opcode and line are present when known. -/
structure Site where
  owner : String
  method : String
  bci : Nat
  opcode : Option Nat
  line : Option Nat
  deriving DecidableEq, Repr

structure Fault where
  cause : Cause
  /-- The constant pool index concerned, negative if there is none. -/
  poolIndex : Int
  site : Option Site
  deriving DecidableEq, Repr

namespace Fault

def of (cause : Cause) : Fault := ⟨cause, -1, none⟩

def kind (fault : Fault) : FaultKind := fault.cause.kind

def reason (fault : Fault) : Option FaultReason := fault.cause.reason

/-- The longest message kept. -/
def messageLimit : Nat := 255

/-- The longest class or method name kept in a site. -/
def nameLimit : Nat := 127

def message (fault : Fault) : String := Text.clip messageLimit fault.cause.message

def atIndex (fault : Fault) (index : Int) : Fault :=
  if fault.poolIndex < 0 then { fault with poolIndex := index } else fault

/-- Stamp the place, unless an inner one is already stamped. -/
def atSite (fault : Fault) (site : Site) : Fault :=
  match fault.site with
  | some _ => fault
  | none =>
      { fault with
        site := some { site with
          owner := Text.clip nameLimit site.owner
          method := Text.clip nameLimit site.method } }

theorem atSite_atSite (fault : Fault) (inner outer : Site) :
    (fault.atSite inner).atSite outer = fault.atSite inner := by
  obtain ⟨cause, index, site⟩ := fault
  cases site <;> rfl

/-- Faults that point to malformed input rather than to a failed look-up. -/
def isFatal (fault : Fault) : Bool :=
  match fault.kind with
  | .frame | .type => true
  | .resolution => fault.reason == some .badIndex
  | _ => false

def siteText (site : Site) : String :=
  let opcode := match site.opcode with
    | some code => ", opcode 0x" ++ Text.hex 2 code ++ " " ++ Opcode.name code
    | none => ""
  let line := match site.line with
    | some line => s!", line {line}"
    | none => ""
  s!"\tat {site.owner}.{site.method} (bci {site.bci}" ++ opcode ++ line ++ ")\n"

def render (fault : Fault) : String :=
  let reason := match fault.reason with
    | some reason => "(" ++ reason.name ++ ")"
    | none => ""
  let site := match fault.site with
    | some site => siteText site
    | none => ""
  let index :=
    if fault.poolIndex < 0 then "" else s!"\tconstant pool index #{fault.poolIndex}\n"
  fault.kind.name ++ reason ++ ": " ++ fault.message ++ "\n" ++ site ++ index

end Fault

end Jvm
