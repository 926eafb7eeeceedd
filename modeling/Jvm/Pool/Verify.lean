/-
# Jvm.Pool.Verify — checking the references inside a pool

`Pool.verify` goes through the slots in order and stops at the first entry with a bad
reference, or at the first slot that was never written. The slot after a two-slot
constant is passed over.
-/
import Jvm.Pool

namespace Jvm.Pool

set_option autoImplicit false

/-- A reference of entry `index` points inside the pool, to a constant of the right kind. -/
def checkReference (pool : Pool) (index : Nat) (tag : Tag) (target : Int) (kind : Target) :
    Except Fault Unit :=
  if ¬ pool.isWithin target then
    .error ((Fault.of (.entryRefersOutside index tag target pool.length)).atIndex index)
  else
    match pool.entryAt target.toNat with
    | none => .error ((Fault.of (.entryRefersUnusable index tag target)).atIndex index)
    | some found =>
        if kind.accepts found.tag then .ok ()
        else
          .error ((Fault.of (.entryRefersToKind index tag target found.tag kind.tag)).atIndex
            index)

def checkReferences (pool : Pool) (index : Nat) (tag : Tag) :
    List (Int × Target) → Except Fault Unit
  | [] => .ok ()
  | (target, kind) :: rest =>
      match pool.checkReference index tag target kind with
      | .error fault => .error fault
      | .ok _ => pool.checkReferences index tag rest

/-- Check the slots from `index` on; `skip` passes over the upper half of a wide entry. -/
def verifyFrom (pool : Pool) (index : Nat) (skip : Bool) :
    List (Option Entry) → Except Fault Unit
  | [] => .ok ()
  | slot :: rest =>
      if skip then pool.verifyFrom (index + 1) false rest
      else
        match slot with
        | none => .error ((Fault.of (.entryUndefined index)).atIndex index)
        | some entry =>
            match pool.checkReferences index entry.tag entry.references with
            | .error fault => .error fault
            | .ok _ => pool.verifyFrom (index + 1) entry.isWide rest

def verify (pool : Pool) : Except Fault Unit :=
  pool.verifyFrom 1 false (pool.slots.toList.drop 1)

end Jvm.Pool
