/-
# Jvm.Proofs.Call.PoolUses — which constants instructions accept

An instruction that loads a constant, makes an object, uses a field or calls a method looks into the
pool first. What it accepts is decided by the slot and the kind of the constant alone, since in the
pool of a class file whatever an entry refers to is there (`PoolUse.refusal?_eq`). Each instruction
has its own kinds, with one exception: `invokevirtual` accepts references to methods of interfaces,
which are not its own (`constants_accepted_of_own_kind_or_interface_by_virtual`). An instruction
whose constant is refused has done nothing but to be traced.
-/
import Jvm.Proofs.Call.InstanceFields
import Jvm.Proofs.ClassFile.Pools
import Jvm.Proofs.Pool.Readings
import Jvm.Proofs.Pool.Resolvable

namespace Jvm

set_option autoImplicit false

open Exec Machine
open Pool (Tag Entry MemberKind)

/-- What an instruction wants a constant for. -/
inductive PoolUse where
  | load (wide : Bool)
  | create
  | access (access : FieldAccess)
  | call (kind : InvokeKind)
  deriving DecidableEq, Repr

/-- The use that an instruction makes of a constant, and the slot of the constant. -/
def Instr.poolUse? : Instr → Option (PoolUse × Nat)
  | .constant index wide => some (.load wide, index)
  | .allocate index => some (.create, index)
  | .field access index => some (.access access, index)
  | .invoke kind index => some (.call kind, index)
  | .inFrame _ | .ret _ => none

namespace PoolUse

/-- The kinds of constants that an instruction has for its own. -/
def isOwn : PoolUse → Tag → Bool
  | .load false, .integer | .load false, .float | .load false, .string => true
  | .load true, .long | .load true, .double => true
  | .create, .classRef => true
  | .access _, .field => true
  | .call .virtual, .method => true
  | .call .interface, .interfaceMethod => true
  | .call .static, .method | .call .static, .interfaceMethod => true
  | .call .special, .method | .call .special, .interfaceMethod => true
  | _, _ => false

/-- The kinds of constants that could be loaded, but are not supported. -/
def isUnsupported : PoolUse → Tag → Bool
  | .load _, .classRef | .load _, .methodType | .load _, .methodHandle | .load _, .dynamic => true
  | _, _ => false

/-- Why a lookup fails, if it does. -/
def faultOf? {α : Type} : Except Fault α → Option Fault
  | .ok _ => none
  | .error fault => some fault

/-- Why the constant in a slot is refused, if it is. -/
def refusal? (pool : Pool) (index : Int) : PoolUse → Option Fault
  | .load wide => faultOf? (pool.loadable index wide)
  | .create => faultOf? (pool.className index)
  | .access _ => faultOf? (pool.field index)
  | .call kind => faultOf? (Linking.methodRef pool index kind)

/-- The fault that tells a constant of another kind. -/
def mismatch (index : Int) (tag : Tag) : PoolUse → Fault
  | .load wide => Pool.refuseLoad index.toNat tag wide
  | .create => Pool.faultAt (.entryKind (.tagged .classRef) index.toNat tag) index
  | .access _ => Pool.faultAt (.entryKind (.tagged .field) index.toNat tag) index
  | .call .interface => Pool.faultAt (.entryKind (.tagged .interfaceMethod) index.toNat tag) index
  | .call _ => Pool.faultAt (.entryKind (.tagged .method) index.toNat tag) index

/-- The kinds of constants that an instruction does accept. -/
def accepts (use : PoolUse) (tag : Tag) : Bool :=
  use.isOwn tag || use == .call .virtual && tag == .interfaceMethod

end PoolUse

/-! ## Lookups -/

namespace Pool

variable {pool : Pool} {index : Int}

theorem toNat_of_isWithin (within : pool.isWithin index = true) : (index.toNat : Int) = index := by
  unfold isWithin at within
  simp only [Bool.and_eq_true, decide_eq_true_eq] at within
  omega

theorem tagAt_of_entryAt {slot : Nat} {entry : Entry} (here : pool.entryAt slot = some entry) :
    pool.tagAt slot = entry.tag := by
  unfold tagAt
  rw [here]

theorem Entry.exists_of_tag_eq {kind : MemberKind} {entry : Entry} (same : entry.tag = kind.tag) :
    ∃ parts, entry = .member kind parts := by
  cases entry with
  | member found parts => exact ⟨parts, by cases found <;> cases kind <;> cases same <;> rfl⟩
  | _ => cases kind <;> cases same

theorem Entry.member?_eq_none {kind : MemberKind} {entry : Entry} (differs : entry.tag ≠ kind.tag) :
    entry.member? kind = none := by
  cases entry with
  | member found parts =>
      refine if_neg fun same => differs ?_
      rw [same]
      rfl
  | _ => rfl

section Found

variable {entry : Entry} (checked : pool.Checked) (unused : pool.entryAt 0 = none)
  (within : pool.isWithin index = true) (here : pool.entryAt index.toNat = some entry)

include checked within here

include unused in
/-- A reference to a member is accepted if it is of the kind that is asked for. -/
theorem faultOf?_memberAt (kind : MemberKind) :
    PoolUse.faultOf? (pool.memberAt kind [] index) =
      if entry.tag = kind.tag then none
      else some (faultAt (.entryKind (.tagged kind.tag) index.toNat entry.tag) index) := by
  by_cases same : entry.tag = kind.tag
  · obtain ⟨parts, rfl⟩ := Entry.exists_of_tag_eq same
    obtain ⟨ref, read⟩ := checked.exists_member unused here
    rw [toNat_of_isWithin within] at read
    rw [if_pos same, read]
    rfl
  · unfold memberAt select
    rw [if_neg same, visit_of_entryAt within here List.not_mem_nil]
    dsimp only
    rw [Entry.member?_eq_none same]
    rfl

include unused in
theorem faultOf?_className :
    PoolUse.faultOf? (pool.className index) =
      if entry.tag = .classRef then none
      else some (faultAt (.entryKind (.tagged .classRef) index.toNat entry.tag) index) := by
  cases entry with
  | classRef name =>
      obtain ⟨name, read⟩ := checked.exists_className unused here
      rw [toNat_of_isWithin within] at read
      rw [read]
      rfl
  | member kind parts =>
      unfold className classAt select
      rw [visit_of_entryAt within here List.not_mem_nil]
      cases kind <;> rfl
  | _ =>
      unfold className classAt select
      rw [visit_of_entryAt within here List.not_mem_nil]
      rfl

theorem faultOf?_loadable (wide : Bool) :
    PoolUse.faultOf? (pool.loadable index wide) =
      if (PoolUse.load wide).isOwn entry.tag then none
      else some (refuseLoad index.toNat entry.tag wide) := by
  unfold loadable
  rw [visit_of_entryAt within here List.not_mem_nil]
  cases entry with
  | string text =>
      cases wide with
      | true => rfl
      | false =>
          obtain ⟨content, read⟩ := checked.string here
          simp only [read]
          rfl
  | member kind parts => cases kind <;> cases wide <;> rfl
  | _ => cases wide <;> rfl

end Found

end Pool

namespace PoolUse

variable {pool : Pool} {index : Int} {entry : Entry}

theorem refusal?_of_visit {fault : Fault} (visited : pool.visit [] index = .error fault)
    (use : PoolUse) : use.refusal? pool index = some fault := by
  have member (kind : MemberKind) : faultOf? (pool.memberAt kind [] index) = some fault := by
    unfold Pool.memberAt Pool.select
    rw [visited]
    rfl
  cases use with
  | load wide =>
      unfold refusal? Pool.loadable
      rw [visited]
      rfl
  | create =>
      unfold refusal? Pool.className Pool.classAt Pool.select
      rw [visited]
      rfl
  | access _ => exact member .field
  | call kind =>
      have method : faultOf? (pool.method index) = some fault := by
        rw [Pool.method_eq_memberAt]
        exact member _
      cases kind with
      | interface => exact member .interfaceMethod
      | _ => exact method

/-- What is accepted is decided by the kind of the constant. -/
theorem refusal?_eq (checked : pool.Checked) (unused : pool.entryAt 0 = none)
    (within : pool.isWithin index = true) (here : pool.entryAt index.toNat = some entry)
    (use : PoolUse) :
    use.refusal? pool index =
      if use.accepts entry.tag then none else some (use.mismatch index entry.tag) := by
  have member (kind : MemberKind) := Pool.faultOf?_memberAt checked unused within here kind
  cases use with
  | load wide =>
      refine (Pool.faultOf?_loadable checked within here wide).trans ?_
      cases entry.tag <;> cases wide <;> rfl
  | create =>
      refine (Pool.faultOf?_className checked unused within here).trans ?_
      cases entry.tag <;> rfl
  | access _ =>
      refine (member .field).trans ?_
      cases entry.tag <;> rfl
  | call kind =>
      -- the lookup for a method answers a reference to a method of an interface as well
      have kindOf : pool.methodKind index =
          if entry.tag = .interfaceMethod then .interfaceMethod else .method := by
        simp [Pool.methodKind, within, Pool.tagAt_of_entryAt here]
      have method : faultOf? (pool.method index) = _ :=
        (congrArg faultOf? (Pool.method_eq_memberAt index)).trans (member _)
      rw [kindOf] at method
      cases kind with
      | interface =>
          refine (member .interfaceMethod).trans ?_
          cases entry.tag <;> rfl
      | virtual | special | static =>
          refine method.trans ?_
          cases entry.tag <;> rfl

theorem accepts_eq_true_iff {use : PoolUse} {tag : Tag} :
    use.accepts tag = true ↔
      use.isOwn tag = true ∨ use = .call .virtual ∧ tag = .interfaceMethod := by
  simp [accepts]

theorem mismatch_kind (index : Int) (tag : Tag) (use : PoolUse) :
    if use.isUnsupported tag then
      (use.mismatch index tag).kind = .unsupported ∧ (use.mismatch index tag).reason = none
    else
      (use.mismatch index tag).kind = .resolution ∧
        (use.mismatch index tag).reason = some .kindMismatch := by
  cases use with
  | load wide => cases tag <;> exact ⟨rfl, rfl⟩
  | create | access _ => exact ⟨rfl, rfl⟩
  | call kind => cases kind <;> exact ⟨rfl, rfl⟩

theorem poolIndex_mismatch (within : pool.isWithin index = true) (tag : Tag) (use : PoolUse) :
    (use.mismatch index tag).poolIndex = index := by
  cases use with
  | load wide => cases tag <;> exact Pool.toNat_of_isWithin within
  | create | access _ => rfl
  | call kind => cases kind <;> rfl

/-! ## Instructions -/

variable {machine : Machine} {top : Frame} {below : List Frame}

theorem eq_error_of_faultOf? {α : Type} {reading : Except Fault α} {fault : Fault}
    (failed : faultOf? reading = some fault) : reading = .error fault := by
  cases reading with
  | ok found => cases failed
  | error other =>
      obtain rfl := Option.some.inj failed
      rfl

theorem bind_ofFault_of_faultOf? {α β : Type} {reading : Except Fault α} {fault : Fault}
    (failed : faultOf? reading = some fault) (next : α → Exec β) :
    (ofFault reading >>= next) machine = .error (.fault fault) machine := by
  rw [eq_error_of_faultOf? failed]
  rfl

/-- An instruction whose constant is refused does nothing. -/
theorem execute_refused (frames : machine.thread.frames = top :: below) {instr : Instr}
    {use : PoolUse} {slot : Nat} (uses : instr.poolUse? = some (use, slot)) {c : LinkedClass}
    (holds : top.method.owner.bind machine.classOf? = some c) {fault : Fault}
    (refused : use.refusal? c.pool slot = some fault) (length : Nat) :
    execute instr length machine = .error (.fault fault) machine := by
  have onTop := topFrame_eq_ok frames
  have current : currentPool machine = .ok c.pool machine :=
    (bind_of_ok onTop).trans (bind_of_ok (holder_eq_ok holds))
  cases instr with
  | inFrame instr | ret type => cases uses
  | constant index wide =>
      cases uses
      exact bind_of_error ((bind_of_ok current).trans (bind_ofFault_of_faultOf? refused _))
  | allocate index =>
      cases uses
      exact bind_of_error ((bind_of_ok current).trans
        (bind_of_error (bind_ofFault_of_faultOf? refused _)))
  | field access index =>
      cases uses
      exact bind_of_error ((bind_of_ok current).trans
        (bind_of_error (bind_ofFault_of_faultOf? refused _)))
  | invoke kind index =>
      cases uses
      exact bind_of_error ((bind_of_ok onTop).trans ((bind_of_ok (holder_eq_ok holds)).trans
        (bind_of_error (bind_ofFault_of_faultOf? refused _))))

end PoolUse

/-! ## Pools of class files -/

/-- The pool has been read from a class file. -/
def Pool.Accepted (pool : Pool) : Prop :=
  ∃ cursor later, ClassFile.Reader.pool cursor = .ok pool later

theorem Pool.accepted_of_ofBytes {source : String} {bytes : List UInt8} {c : Class}
    (read : Class.ofBytes source bytes = .ok c) : c.pool.Accepted :=
  ClassFile.Reader.pool_ofBytes (fun cursor _ later ran => ⟨cursor, later, ran⟩) read

/-- An index that is out of range or on the second half of a wide constant is a bad index. Any other
has a constant, and it is accepted exactly if its kind is one of the instruction's own, or it is a
reference to a method of an interface and the instruction `invokevirtual`. A constant of any other
kind is a mismatch, or not supported where it is to be loaded, and an instruction that refuses its
constant changes no thread. -/
theorem constants_accepted_of_own_kind_or_interface_by_virtual {pool : Pool}
    (accepted : pool.Accepted) (use : PoolUse) (index : Int) :
    (pool.isWithin index = false ∨ pool.IsUpperHalf index.toNat →
      ∃ fault, use.refusal? pool index = some fault ∧ fault.kind = .resolution ∧
        fault.reason = some .badIndex ∧ fault.poolIndex = index) ∧
    (pool.isWithin index = true → ¬ pool.IsUpperHalf index.toNat →
      ∃ entry, pool.entryAt index.toNat = some entry ∧
        (use.refusal? pool index = none ↔ use.isOwn entry.tag = true ∨
          use = .call .virtual ∧ entry.tag = .interfaceMethod) ∧
        ∀ fault, use.refusal? pool index = some fault → fault.poolIndex = index ∧
          if use.isUnsupported entry.tag then fault.kind = .unsupported ∧ fault.reason = none
          else fault.kind = .resolution ∧ fault.reason = some .kindMismatch) ∧
    ∀ (machine : Machine) (top : Frame) (below : List Frame) (instr : Instr) (length slot : Nat)
      (c : LinkedClass) (fault : Fault), machine.thread.frames = top :: below →
      top.next? = some (instr, length) → instr.poolUse? = some (use, slot) →
      top.method.owner.bind machine.classOf? = some c → c.pool = pool →
      use.refusal? pool slot = some fault →
      ∃ site log,
        step machine = .error (.fault (fault.atSite site)) { machine with log := log } := by
  obtain ⟨cursor, later, ran⟩ := accepted
  obtain ⟨checked, unused⟩ := ClassFile.Reader.gives_pool _ _ _ ran
  have full := ClassFile.Reader.gives_pool_full _ _ _ ran
  refine ⟨fun unusable => ?_, fun within lower => ?_,
    fun machine top below instr length slot c fault frames next uses holds same refused => ?_⟩
  · have empty : pool.isWithin index = true → pool.entryAt index.toNat = none := by
      intro within
      have within' : pool.isWithin index.toNat = true := by rwa [Pool.toNat_of_isWithin within]
      refine (full _ within').mpr (unusable.resolve_left ?_)
      simp [within]
    obtain ⟨fault, visited, bad⟩ := Pool.visit_eq_error empty
    exact ⟨fault, use.refusal?_of_visit visited, bad⟩
  · have within' : pool.isWithin index.toNat = true := by rwa [Pool.toNat_of_isWithin within]
    cases here : pool.entryAt index.toNat with
    | none => exact absurd ((full _ within').mp here) lower
    | some entry =>
        have refuses := PoolUse.refusal?_eq checked unused within here use
        refine ⟨entry, rfl, ?_, fun fault refused => ?_⟩
        · rw [refuses, ← PoolUse.accepts_eq_true_iff]
          simp
        · rw [refuses] at refused
          split at refused
          · cases refused
          · obtain rfl := Option.some.inj refused
            exact ⟨PoolUse.poolIndex_mismatch within _ use, PoolUse.mismatch_kind index _ use⟩
  · obtain ⟨opcode, log, steps⟩ := step_eq frames next
    subst same
    let traced : Machine := { machine with log := log }
    have refused' : execute instr length traced = .error (.fault fault) traced :=
      @PoolUse.execute_refused traced top below frames instr use slot uses c holds fault refused
        length
    refine ⟨siteOf top.method top.bci (some opcode), log, ?_⟩
    rw [steps]
    unfold atSite mapFault
    rw [refused']
    rfl

/-- The file of a class whose static method `run` makes an instance and calls `value` with
`182 0 9`, a reference to a method of an interface, and whose static method `load` loads the class
constant 2. -/
def boxFile : List UInt8 :=
  [202, 254, 186, 190, 0, 0, 0, 52, 0, 14, 1, 0, 3, 66, 111, 120, 7, 0, 1, 1, 0, 16, 106, 97,
    118, 97, 47, 108, 97, 110, 103, 47, 79, 98, 106, 101, 99, 116, 7, 0, 3, 1, 0, 5, 118, 97, 108,
    117, 101, 1, 0, 3, 40, 41, 73, 1, 0, 4, 67, 111, 100, 101, 12, 0, 5, 0, 6, 11, 0, 2, 0, 8, 5,
    0, 0, 0, 0, 0, 0, 0, 5, 1, 0, 3, 114, 117, 110, 1, 0, 4, 108, 111, 97, 100, 0, 33, 0, 2, 0, 4,
    0, 0, 0, 0, 0, 3, 0, 1, 0, 5, 0, 6, 0, 1, 0, 7, 0, 0, 0, 14, 0, 1, 0, 1, 0, 0, 0, 2, 4, 172,
    0, 0, 0, 0, 0, 9, 0, 12, 0, 6, 0, 1, 0, 7, 0, 0, 0, 19, 0, 1, 0, 0, 0, 0, 0, 7, 187, 0, 2,
    182, 0, 9, 172, 0, 0, 0, 0, 0, 9, 0, 13, 0, 6, 0, 1, 0, 7, 0, 0, 0, 15, 0, 1, 0, 0, 0, 0, 0,
    3, 18, 2, 172, 0, 0, 0, 0, 0, 0]

namespace Machine

/-- The built-in classes, and the class of the file. -/
def box : Machine := (blank .standard .empty (.empty 8388608)).withBuiltins.withFile "Box" boxFile

/-- The class constant is about to be loaded. -/
@[irreducible] def loadingClass : Machine := (box.during? "load" 16 [] 0).getD box

end Machine

/-- The call finds its method by a reference that is not its own, the second half of the wide
constant 10 is a bad index, and the class constant is not loaded. -/
theorem constants_accepted_box :
    ∃ c, Class.ofBytes "Box" boxFile = .ok c ∧
      (PoolUse.call .virtual).isOwn (c.pool.tagAt 9) = false ∧
      (PoolUse.call .virtual).refusal? c.pool 9 = none ∧
      (∃ fault, (PoolUse.load true).refusal? c.pool 11 = some fault ∧
        fault.reason = some .badIndex) ∧
      ∃ fault site log, (PoolUse.load false).refusal? c.pool 2 = some fault ∧
        fault.kind = .unsupported ∧
        step loadingClass =
          .error (.fault (fault.atSite site)) { loadingClass with log := log } := by
  obtain ⟨stands, facts⟩ :
      loadingClass.thread.frames.head?.bind Frame.next? = some (.constant 2 false, 2) ∧
      ((Class.ofBytes "Box" boxFile).toOption.any fun c =>
        c.pool.tagAt 9 == .interfaceMethod && c.pool.tagAt 2 == .classRef &&
        c.pool.isWithin 9 && c.pool.isWithin 2 && ! (c.pool.entryAt 8).any Pool.Entry.isWide &&
        ! (c.pool.entryAt 1).any Pool.Entry.isWide && (c.pool.entryAt 10).any Pool.Entry.isWide &&
        ((loadingClass.thread.frames.head?.bind (·.method.owner)).bind loadingClass.classOf?).map
          (·.pool) == some c.pool) = true := by decide +kernel
  cases read : Class.ofBytes "Box" boxFile with
  | error fault => simp [read, Except.toOption] at facts
  | ok c =>
      simp only [read, Except.toOption, Option.any_some, Bool.and_eq_true, beq_iff_eq,
        Bool.not_eq_true'] at facts
      obtain ⟨⟨⟨⟨⟨⟨⟨interface, classRef⟩, within⟩, within'⟩, narrow⟩, narrow'⟩, wide⟩, pool⟩ :=
        facts
      have accepted := Pool.accepted_of_ofBytes read
      have called := constants_accepted_of_own_kind_or_interface_by_virtual accepted
        (.call .virtual) 9
      have halved := constants_accepted_of_own_kind_or_interface_by_virtual accepted (.load true) 11
      have loaded := constants_accepted_of_own_kind_or_interface_by_virtual accepted (.load false) 2
      obtain ⟨top, below, frames, next⟩ := exists_of_next? stands
      refine ⟨c, rfl, by rw [interface]; rfl, ?_, ?_, ?_⟩
      · obtain ⟨entry, here, accepts, -⟩ := called.2.1 within fun upper => by
          simp [Pool.isUpperHalf_succ_iff.mp upper] at narrow
        exact accepts.mpr (.inr ⟨rfl, (Pool.tagAt_of_entryAt here).symm.trans interface⟩)
      · obtain ⟨fault, refused, -, bad, -⟩ := halved.1 (.inr (Pool.isUpperHalf_succ_iff.mpr wide))
        exact ⟨fault, refused, bad⟩
      · obtain ⟨entry, here, accepts, mismatch⟩ := loaded.2.1 within' fun upper => by
          simp [Pool.isUpperHalf_succ_iff.mp upper] at narrow'
        have tag : entry.tag = .classRef := (Pool.tagAt_of_entryAt here).symm.trans classRef
        rw [tag] at accepts mismatch
        obtain ⟨fault, refused⟩ := Option.ne_none_iff_exists'.mp (mt accepts.mp (by decide))
        obtain ⟨linked, holds, same⟩ := Option.map_eq_some_iff.mp pool
        rw [frames] at holds
        obtain ⟨site, log, steps⟩ := loaded.2.2 loadingClass top below (.constant 2 false) 2 2
          linked fault frames next rfl holds same refused
        exact ⟨fault, site, log, refused, (mismatch fault refused).2.1, steps⟩

end Jvm
