/-
# Jvm.Proofs.Call.Dispatch — which method a call runs

The reference of an invoke instruction names a method, which must be static exactly if the
instruction is `invokestatic`. Two searches can put another one in its place, each with its own gap.

A super call searches again from the superclass of the calling class, and takes what it finds there
without asking whether it is static (`Machine.MeetsStatic`). That is the only way in which a call
runs a method of the wrong kind (`callee_static_iff_invokestatic_or_super_meets_static`).

A call on a receiver searches the classes of the receiver for the nearest declaration, be it private
or not. So a private method runs, or keeps another from running, where its declaration is the
nearest (`Machine.Veiled`); everywhere else private methods take no part in overriding
(`private_never_overrides_unless_nearest`).
-/
import Jvm.Proofs.Call.InstanceFields
import Jvm.Proofs.Machine.Granted

namespace Jvm

set_option autoImplicit false

open Exec Machine

namespace Machine

variable {machine : Machine}

/-! ## Declarations -/

/-- The declarations of a method in the classes of a chain, from the nearest on. -/
def declarations (machine : Machine) (chain : List ClassId) (name descriptor : String) :
    List Method :=
  (chain.filterMap machine.classOf?).filterMap (·.method? name descriptor)

/-- A search in a chain whose classes are there finds the first declaration. -/
theorem findMethod?_eq_head? {chain : List ClassId}
    (there : ∀ id ∈ chain, ∃ c, machine.classOf? id = some c) (name descriptor : String) :
    machine.findMethod? chain name descriptor =
      (machine.declarations chain name descriptor).head? := by
  unfold findMethod? declarations
  induction chain with
  | nil => rfl
  | cons id supers ih =>
      obtain ⟨c, known⟩ := there id List.mem_cons_self
      have rest := ih fun id member => there id (List.mem_cons_of_mem _ member)
      rw [List.filterMap_cons_some known, List.filterMap_cons]
      unfold findInChain?
      rw [known]
      dsimp only
      cases c.method? name descriptor with
      | none => exact rest
      | some method => rfl

/-- The class and its superclasses are there. -/
theorem Identified.classOf?_chain (identified : machine.Identified) {c : LinkedClass}
    (known : c ∈ machine.classes) : ∀ id ∈ c.chain, ∃ d, machine.classOf? id = some d := by
  intro id member
  obtain ⟨d, known', rfl⟩ := identified.known_of_mem_chain known member
  exact ⟨d, identified.classOf? known'⟩

/-! ## Overriding -/

/-- The method that runs on a receiver of the class, if private methods take no part in overriding:
the method itself if it is private, and otherwise the nearest declaration that is not, unless that
is static. -/
def overriding? (machine : Machine) (receiver : LinkedClass) (method : Method) : Option Method :=
  if method.isPrivate then some method
  else
    ((machine.declarations receiver.chain method.name method.descriptor).find?
      fun declared => ! declared.isPrivate).filter fun declared => ! declared.isStatic

/-- The method that does run: the nearest declaration, be it private or not. -/
def selected? (machine : Machine) (receiver : LinkedClass) (method : Method) : Option Method :=
  if method.isPrivate then some method
  else
    (machine.declarations receiver.chain method.name method.descriptor).head?.filter
      fun declared => ! declared.isStatic

/-- The nearest declaration is private, though the method is not, and it matters: if it is static,
then something further up the chain would run. -/
def Veiled (machine : Machine) (receiver : LinkedClass) (method nearest : Method) : Prop :=
  method.isPrivate = false ∧ nearest.isPrivate = true ∧
    (machine.declarations receiver.chain method.name method.descriptor).head? = some nearest ∧
    (nearest.isStatic = true → machine.overriding? receiver method ≠ none)

variable {receiver : LinkedClass} {method nearest : Method}

theorem isPrivate_of_overriding? (plain : method.isPrivate = false)
    (found : machine.overriding? receiver method = some nearest) : nearest.isPrivate = false := by
  unfold overriding? at found
  rw [plain] at found
  have passed := List.find?_some (Option.filter_eq_some_iff.mp found).1
  simpa using passed

theorem selected?_of_head? (plain : method.isPrivate = false)
    (first : (machine.declarations receiver.chain method.name method.descriptor).head? =
      some nearest) :
    machine.selected? receiver method = if nearest.isStatic then none else some nearest := by
  cases static : nearest.isStatic <;> simp [selected?, plain, first, static]

theorem selected?_eq_overriding?_iff :
    machine.selected? receiver method = machine.overriding? receiver method ↔
      ∀ nearest, ¬ machine.Veiled receiver method nearest := by
  constructor
  · rintro same nearest ⟨plain, hides, first, matters⟩
    have selects := selected?_of_head? plain first
    cases static : nearest.isStatic with
    | true => exact matters static (by rw [← same, selects, if_pos static])
    | false =>
        have answer : machine.overriding? receiver method = some nearest := by
          rw [← same, selects, if_neg (by simp [static])]
        cases hides.symm.trans (isPrivate_of_overriding? plain answer)
  · intro unveiled
    cases plain : method.isPrivate with
    | true => simp [selected?, overriding?, plain]
    | false =>
        cases listed : machine.declarations receiver.chain method.name method.descriptor with
        | nil => simp [selected?, overriding?, plain, listed]
        | cons nearest further =>
            cases hides : nearest.isPrivate with
            | false => simp [selected?, overriding?, plain, listed, hides]
            | true =>
                -- that it is not veiled leaves one case: it is static, and there is no other
                have visible := unveiled nearest
                simp only [Veiled, plain, hides, listed, List.head?_cons, true_and, not_forall,
                  not_not, ne_eq] at visible
                obtain ⟨static, none⟩ := visible
                simp [none, selected?, plain, listed, static]

end Machine

/-! ## Selection -/

namespace Linking

variable {machine : Machine} {receiver : LinkedClass} {method : Method}

/-- How a selection ends: with a method, or with the fault that says that there is none. -/
def answering (receiver : LinkedClass) (method : Method) : Option Method → Exec Method
  | some selected => return selected
  | none => Exec.fail (.notImplemented receiver.name method.name method.descriptor)

theorem selectVirtual_eq (identified : machine.Identified) (known : receiver ∈ machine.classes)
    (method : Method) :
    selectVirtual receiver method machine =
      answering receiver method (machine.selected? receiver method) machine := by
  unfold selectVirtual selected?
  cases method.isPrivate with
  | true => rfl
  | false =>
      simp only [Bool.false_eq_true, if_false]
      rw [bind_get, findMethod?_eq_head? (identified.classOf?_chain known)]
      cases (machine.declarations receiver.chain method.name method.descriptor).head? with
      | none => rfl
      | some nearest =>
          rw [Option.filter_some]
          cases static : nearest.isStatic with
          | true => simp only [static, if_true]; rfl
          | false => simp only [static, Bool.false_eq_true, if_false, Bool.not_false]; rfl

/-- A selection leaves the machine as it is, and if there is no method to select, then the fault is
that there is no such method. -/
theorem ends_answering (selected : Option Method) :
    (answering receiver method selected).Ends machine
      (fun answer later => later = machine ∧ selected = some answer)
      fun halt later => later = machine ∧ selected = none ∧
        ∃ fault, halt = .fault fault ∧ fault.kind = .resolution ∧
          fault.reason = some .noSuchMethod := by
  cases selected with
  | some answer => exact ends_pure ⟨rfl, rfl⟩
  | none => exact ends_throw ⟨rfl, rfl, _, rfl, rfl, rfl⟩

theorem eq_of_answering_eq {one other : Option Method}
    (same : answering receiver method one machine = answering receiver method other machine) :
    one = other := by
  cases one with
  | none => cases other with
    | none => rfl
    | some there => cases same
  | some here => cases other with
    | none => cases same
    | some there =>
        obtain ⟨rfl, -⟩ := EStateM.Result.ok.inj same
        rfl

end Linking

/-! ## Classes that redeclare methods -/

namespace Machine

/-- The file of a class with two methods, `size` and `rank`, that return 1. -/
def overriddenFile : List UInt8 :=
  [202, 254, 186, 190, 0, 0, 0, 52, 0, 9, 1, 0, 4, 66, 97, 115, 101, 7, 0, 1, 1, 0, 16, 106, 97,
    118, 97, 47, 108, 97, 110, 103, 47, 79, 98, 106, 101, 99, 116, 7, 0, 3, 1, 0, 4, 115, 105,
    122, 101, 1, 0, 3, 40, 41, 73, 1, 0, 4, 67, 111, 100, 101, 1, 0, 4, 114, 97, 110, 107, 0, 33,
    0, 2, 0, 4, 0, 0, 0, 0, 0, 2, 0, 1, 0, 5, 0, 6, 0, 1, 0, 7, 0, 0, 0, 14, 0, 1, 0, 1, 0, 0, 0,
    2, 4, 172, 0, 0, 0, 0, 0, 1, 0, 8, 0, 6, 0, 1, 0, 7, 0, 0, 0, 14, 0, 1, 0, 1, 0, 0, 0, 2, 4,
    172, 0, 0, 0, 0, 0, 0]

/-- The file of a subclass, in which `size` is static, `rank` is private, and both return 2. -/
def veilingFile : List UInt8 :=
  [202, 254, 186, 190, 0, 0, 0, 52, 0, 9, 1, 0, 6, 77, 105, 100, 100, 108, 101, 7, 0, 1, 1, 0, 4,
    66, 97, 115, 101, 7, 0, 3, 1, 0, 4, 115, 105, 122, 101, 1, 0, 3, 40, 41, 73, 1, 0, 4, 67, 111,
    100, 101, 1, 0, 4, 114, 97, 110, 107, 0, 33, 0, 2, 0, 4, 0, 0, 0, 0, 0, 2, 0, 9, 0, 5, 0, 6,
    0, 1, 0, 7, 0, 0, 0, 14, 0, 1, 0, 1, 0, 0, 0, 2, 5, 172, 0, 0, 0, 0, 0, 2, 0, 8, 0, 6, 0, 1,
    0, 7, 0, 0, 0, 14, 0, 1, 0, 1, 0, 0, 0, 2, 5, 172, 0, 0, 0, 0, 0, 0]

/-- The file of a subclass of that, whose static method `run` makes an instance and then makes a
super call of `size`, which its instruction `183 0 10` finds in the first class. -/
def superCallFile : List UInt8 :=
  [202, 254, 186, 190, 0, 0, 0, 52, 0, 13, 1, 0, 4, 76, 101, 97, 102, 7, 0, 1, 1, 0, 6, 77, 105,
    100, 100, 108, 101, 7, 0, 3, 1, 0, 4, 66, 97, 115, 101, 7, 0, 5, 1, 0, 4, 115, 105, 122, 101,
    1, 0, 3, 40, 41, 73, 12, 0, 7, 0, 8, 10, 0, 6, 0, 9, 1, 0, 3, 114, 117, 110, 1, 0, 4, 67, 111,
    100, 101, 0, 33, 0, 2, 0, 4, 0, 0, 0, 0, 0, 1, 0, 9, 0, 11, 0, 8, 0, 1, 0, 12, 0, 0, 0, 19, 0,
    1, 0, 0, 0, 0, 0, 7, 187, 0, 2, 183, 0, 10, 172, 0, 0, 0, 0, 0, 0]

/-- The built-in classes, and the classes of the three files. -/
def overridden : Machine :=
  (((blank .standard .empty (.empty 8388608)).withBuiltins.withFile "Base" overriddenFile).withFile
    "Middle" veilingFile).withFile "Leaf" superCallFile

theorem conducted_overridden {Granted : Machine → Method → List Value → Prop} :
    Conducted Granted overridden :=
  (((Conducted.start (start_eq_ok rfl)).withFile "Base" overriddenFile).withFile "Middle"
    veilingFile).withFile "Leaf" superCallFile

variable {machine : Machine}

/-- A call on a receiver runs what private declarations leave to it, a private method itself or else
the nearest declaration that is not private, unless the nearest of all declarations is private: then
that one runs, or, if it is static, there is no such method. -/
theorem private_never_overrides_unless_nearest (attained : Attained (fun _ _ _ => True) machine)
    {receiver : LinkedClass} (known : receiver ∈ machine.classes) (method : Method) :
    (Linking.selectVirtual receiver method machine =
        Linking.answering receiver method (machine.overriding? receiver method) machine ↔
      ∀ nearest, ¬ machine.Veiled receiver method nearest) ∧
    (∀ nearest, machine.Veiled receiver method nearest →
      Linking.selectVirtual receiver method machine =
        Linking.answering receiver method (if nearest.isStatic then none else some nearest)
          machine) ∧
    ∀ selected, (Linking.answering receiver method selected).Ends machine
      (fun answer later => later = machine ∧ selected = some answer)
      fun halt later => later = machine ∧ selected = none ∧
        ∃ fault, halt = .fault fault ∧ fault.kind = .resolution ∧
          fault.reason = some .noSuchMethod := by
  have identified := (dictionary_identified.endures _).attained attained
  rw [Linking.selectVirtual_eq identified known]
  refine ⟨?_, fun nearest veiled => ?_, fun _ => Linking.ends_answering _⟩
  · rw [← selected?_eq_overriding?_iff]
    exact ⟨Linking.eq_of_answering_eq, fun same => by rw [same]⟩
  · obtain ⟨plain, -, first, -⟩ := veiled
    rw [selected?_of_head? plain first]

/-- A call of `rank` on an instance of the first class runs it, and on an instance of the second,
where `rank` is private, it runs the private one instead. -/
theorem private_never_overrides_overridden :
    ∃ base ∈ overridden.classes, ∃ receiver ∈ overridden.classes, ∃ method ∈ base.methods,
      ∃ nearest ∈ receiver.methods, method.name = "rank" ∧ nearest ≠ method ∧
        Linking.selectVirtual base method overridden = .ok method overridden ∧
        overridden.Veiled receiver method nearest ∧
        overridden.overriding? receiver method = some method ∧
        Linking.selectVirtual receiver method overridden = .ok nearest overridden := by
  obtain ⟨base, known, receiver, known', method, member, nearest, member', name, apart, own, first,
      visible, hidden, plain, below, overrides⟩ :
      ∃ base ∈ overridden.classes, ∃ receiver ∈ overridden.classes, ∃ method ∈ base.methods,
        ∃ nearest ∈ receiver.methods, method.name = "rank" ∧ nearest ≠ method ∧
          overridden.overriding? base method = some method ∧
          (overridden.declarations base.chain method.name method.descriptor).head? = some method ∧
          method.isPrivate = false ∧ nearest.isPrivate = true ∧ nearest.isStatic = false ∧
          (overridden.declarations receiver.chain method.name method.descriptor).head? =
            some nearest ∧
          overridden.overriding? receiver method = some method := by decide +kernel
  have attained : Attained (fun _ _ _ => True) overridden := .between conducted_overridden
  have veiled : overridden.Veiled receiver method nearest :=
    ⟨visible, hidden, below, fun _ => by simp [overrides]⟩
  refine ⟨base, known, receiver, known', method, member, nearest, member', name, apart, ?_, veiled,
    overrides, ?_⟩
  · have unveiled : ∀ nearest, ¬ overridden.Veiled base method nearest := by
      rintro nearest ⟨-, hides, first', -⟩
      obtain rfl := Option.some.inj (first.symm.trans first')
      cases visible.symm.trans hides
    rw [(private_never_overrides_unless_nearest attained known method).1.mpr unveiled, own]
    rfl
  · rw [(private_never_overrides_unless_nearest attained known' method).2.1 nearest veiled, plain]
    rfl

end Machine

/-! ## Static methods -/

namespace Machine

/-- A super call meets a static method: the one that its reference stands for is not static, but the
search that starts again at the superclass of the calling class finds one that is. -/
def MeetsStatic (machine : Machine) (pool : Pool) (index : Int) (caller : LinkedClass) : Prop :=
  ∃ ref c named found, Linking.methodRef pool index .special = .ok ref ∧
    machine.findClass? ref.owner = some c ∧
    machine.findMethod? c.chain ref.name ref.descriptor = some named ∧ named.isStatic = false ∧
    Linking.isSuperCall caller c named = true ∧
    machine.findMethod? caller.supers ref.name ref.descriptor = some found ∧ found.isStatic = true

end Machine

namespace Linking

variable {machine : Machine}

/-- The method that an instruction calls on a receiver of a class. -/
def choose (pool : Pool) (index : Int) (kind : InvokeKind) (caller : Option LinkedClass)
    (receiver : LinkedClass) : Exec Method := do
  let method ← resolveInvoke pool index kind caller
  match kind with
  | .virtual | .interface => selectVirtual receiver method
  | .special | .static => return method

/-- Once its reference has been followed, all depends on what is above the calling class. -/
theorem meetsStatic_iff {pool : Pool} {index : Int} {c : LinkedClass} {ref : Pool.Member}
    {named : Method} (read : methodRef pool index .special = .ok ref)
    (found : machine.findClass? ref.owner = some c)
    (located : machine.findMethod? c.chain ref.name ref.descriptor = some named)
    (plain : named.isStatic = false) (caller : LinkedClass) :
    machine.MeetsStatic pool index caller ↔ isSuperCall caller c named = true ∧
      ∃ met, machine.findMethod? caller.supers ref.name ref.descriptor = some met ∧
        met.isStatic = true := by
  constructor
  · rintro ⟨ref', c', named', met, read', found', located', -, above, again, static⟩
    obtain rfl := Except.ok.inj (read.symm.trans read')
    obtain rfl := Option.some.inj (found.symm.trans found')
    obtain rfl := Option.some.inj (located.symm.trans located')
    exact ⟨above, met, again, static⟩
  · rintro ⟨above, met, again, static⟩
    exact ⟨ref, c, named, met, read, found, located, plain, above, again, static⟩

/-- A resolved method is static exactly if the instruction asks for that, or if a super call meets a
static method. -/
theorem ends_resolveInvoke_static (pool : Pool) (index : Int) (kind : InvokeKind)
    (caller : Option LinkedClass) (machine : Machine) :
    (resolveInvoke pool index kind caller).Ends machine
      (fun method later => method.isStatic = true ↔ kind = .static ∨
        kind = .special ∧ ∃ c, caller = some c ∧ later.MeetsStatic pool index c)
      fun _ later => machine.Steady later := by
  refine ends_bind_ofFault (fun ref read => ?_) fun _ _ => Steady.refl machine
  refine (Loading.ends_resolve ref.owner (Steady.refl machine)).bind fun c later found => ?_
  obtain ⟨steady, found⟩ := found
  refine ends_bind_get ?_
  split
  · exact ends_throw steady
  rename_i named located
  refine ends_guard (fun _ => steady) fun agrees => ?_
  have agrees' : named.isStatic = true ↔ kind = .static := by
    rw [Decidable.not_not.mp agrees, beq_iff_eq]
  dsimp only
  split
  · rename_i caller
    have plain : named.isStatic = false := by simpa using agrees'
    have meets := meetsStatic_iff read found located plain caller
    by_cases above : isSuperCall caller c named = true
    · rw [if_pos above]
      cases again : later.findMethod? caller.supers ref.name ref.descriptor with
      | none => exact ends_pure (by simp [plain, meets, again])
      | some met => exact ends_pure (by simp [meets, above, again])
    · rw [if_neg above]
      exact ends_pure (by simp [plain, meets, above])
  · rename_i other
    refine ends_pure (agrees'.trans ⟨.inl, fun either => either.elim id ?_⟩)
    rintro ⟨special, caller, same, -⟩
    exact absurd same (other caller special)

/-- A method of the wrong kind is refused. -/
theorem resolveInvoke_refuses {linked : Machine} {pool : Pool} {index : Int} {kind : InvokeKind}
    {ref : Pool.Member} {c : LinkedClass} {named : Method}
    (read : methodRef pool index kind = .ok ref)
    (loaded : Loading.resolve ref.owner machine = .ok c linked)
    (located : linked.findMethod? c.chain ref.name ref.descriptor = some named)
    (differs : named.isStatic ≠ (kind == .static)) (caller : Option LinkedClass) :
    ∃ fault, resolveInvoke pool index kind caller machine = .error (.fault fault) linked ∧
      fault.kind = .resolution ∧ fault.reason = some .noSuchMethod := by
  refine ⟨(Fault.of (.methodStaticness (kind == .static) ref.owner ref.name ref.descriptor)).atIndex
    index, ?_, rfl, rfl⟩
  unfold resolveInvoke
  rw [read]
  refine (bind_of_ok loaded).trans ?_
  rw [bind_get, located]
  dsimp only
  rw [if_pos differs]
  rfl

/-- A receiver selects no static method in the place of one that is not. -/
theorem ends_selectVirtual_static (receiver : LinkedClass) {method : Method}
    (plain : method.isStatic = false) (machine : Machine) :
    (selectVirtual receiver method).Ends machine
      (fun selected later => selected.isStatic = false ∧ later = machine)
      fun _ later => later = machine := by
  unfold selectVirtual
  dsimp only
  split
  · exact ends_pure ⟨plain, rfl⟩
  · refine ends_bind_get ?_
    split
    · exact ends_throw rfl
    · exact ends_guard (fun _ => rfl) fun static => ends_pure ⟨by simpa using static, rfl⟩

theorem ends_choose_static (pool : Pool) (index : Int) (kind : InvokeKind)
    (caller : Option LinkedClass) (receiver : LinkedClass) (machine : Machine) :
    (choose pool index kind caller receiver).Ends machine
      (fun method later => method.isStatic = true ↔ kind = .static ∨
        kind = .special ∧ ∃ c, caller = some c ∧ later.MeetsStatic pool index c)
      fun _ later => machine.Steady later := by
  have resolved := ends_resolveInvoke_static pool index kind caller machine
  have reaches := keeps_resolveInvoke (P := machine.Steady) (fun name => Loading.keeps_resolve name)
    pool index kind caller machine (Steady.refl machine)
  refine (resolved.and reaches).before (fun method later ended => ?_) fun _ _ ended => ended.1
  obtain ⟨static, steady⟩ := ended
  have selects (dynamic : kind = .virtual ∨ kind = .interface) :
      (selectVirtual receiver method).Ends later
        (fun method later => method.isStatic = true ↔ kind = .static ∨
          kind = .special ∧ ∃ c, caller = some c ∧ later.MeetsStatic pool index c)
        fun _ last => machine.Steady last := by
    have plain : method.isStatic = false := by
      rcases dynamic with rfl | rfl <;> simpa using static
    refine (ends_selectVirtual_static receiver plain later).mono (fun selected last ended => ?_)
      fun _ _ same => same ▸ steady
    obtain ⟨unselected, rfl⟩ := ended
    rw [unselected, ← static, plain]
  cases kind with
  | virtual => exact selects (.inl rfl)
  | interface => exact selects (.inr rfl)
  | special => exact ends_pure static
  | static => exact ends_pure static

end Linking

namespace Exec

variable {machine : Machine} {top : Frame} {below : List Frame}

/-- The method has been entered, with its receiver in front of its arguments if the instruction
takes one. -/
def Entered (kind : InvokeKind) (method : Method) (later : Machine) : Prop :=
  ∃ arguments asked, enter method arguments asked = .ok () later ∧
    (kind ≠ .static → ∃ receiver rest, arguments = .ref (some receiver) :: rest)

/-- What is called on a receiver is of the same kind as the resolved method. -/
theorem ends_callee_static {kind : InvokeKind} {method : Method} (receiver : Ref)
    (dynamic : kind = .virtual ∨ kind = .interface → method.isStatic = false) :
    (callee kind method receiver).Ends machine
      (fun selected _ => selected.isStatic = method.isStatic) fun _ _ => True := by
  have selects (plain : method.isStatic = false) : (do
      let c ← classOf (← object receiver).classId
      Linking.selectVirtual c method).Ends machine
        (fun selected _ => selected.isStatic = method.isStatic) fun _ _ => True :=
    ends_bind_any fun object found => ends_bind_any fun c known =>
      (Linking.ends_selectVirtual_static c plain known).mono
        (fun _ _ selected => selected.1.trans plain.symm) fun _ _ _ => trivial
  cases kind with
  | virtual => exact selects (dynamic (.inl rfl))
  | interface => exact selects (dynamic (.inr rfl))
  | special => exact ends_pure rfl
  | static => exact ends_pure rfl

/-- A call enters the resolved method or one that the receiver selects, and the two are of the same
kind. -/
theorem ends_callWith_entered {kind : InvokeKind} {method : Method} (length : Nat)
    (dynamic : kind = .virtual ∨ kind = .interface → method.isStatic = false) :
    (callWith kind method length).Ends machine
      (fun _ later => ∃ called, Entered kind called later ∧ called.isStatic = method.isStatic)
      fun _ _ => True := by
  unfold callWith
  dsimp only
  refine ends_guard (fun _ => trivial) fun _ => ends_bind_any fun arguments popped => ?_
  split
  · refine ends_bind_any fun _ moved => ends_self.mono (fun _ later ran => ?_) fun _ _ _ => trivial
    exact ⟨method, ⟨arguments, moved, ran, fun instance' => absurd rfl instance'⟩, rfl⟩
  · refine ends_bind_any fun receiver taken => ?_
    refine (ends_callee_static receiver dynamic).before (fun selected chosen same => ?_)
      fun _ _ _ => trivial
    refine ends_bind_any fun _ moved => ends_self.mono (fun _ later ran => ?_) fun _ _ _ => trivial
    exact ⟨selected, ⟨_, moved, ran, fun _ => ⟨receiver, arguments, rfl⟩⟩, same⟩

/-- Only the class of a method that is called with `invokestatic` can have to be made ready. -/
theorem ends_readyToCall_static (kind : InvokeKind) (method : Method) :
    (readyToCall kind method).Ends machine
      (fun ready later => if ready = true then True else kind = .static ∧ machine.Starts later)
      fun _ _ => True := by
  unfold readyToCall
  split
  · refine ends_bind_classOf (fun c _ => ?_) fun _ => trivial
    refine (Initialization.ends_ensureReady c (Aside.refl machine)).mono
      (fun ready later ended => ?_) fun _ _ _ => trivial
    cases ready with
    | true => trivial
    | false => exact ⟨rfl, ended⟩
  · exact ends_throw trivial
  · exact ends_pure trivial

/-- An invoke instruction of a class has an initializer started, or enters a method of the kind that
it asks for, unless a super call meets a static one. -/
def Dispatches (machine : Machine) (caller : LinkedClass) (kind : InvokeKind) (index : Int)
    (later : Machine) : Prop :=
  kind = .static ∧ machine.Starts later ∨ ∃ method linked called,
    Linking.resolveInvoke caller.pool index kind (some caller) machine = .ok method linked ∧
    Entered kind called later ∧
    (called.isStatic = true ↔ kind = .static ∨
      kind = .special ∧ linked.MeetsStatic caller.pool index caller)

theorem ends_invoke_dispatches (frames : machine.thread.frames = top :: below) (kind : InvokeKind)
    (index length : Nat) :
    (invoke kind index length).Ends machine
      (fun _ later => ∃ caller, top.method.owner.bind machine.classOf? = some caller ∧
        Dispatches machine caller kind index later)
      fun _ _ => True := by
  refine ends_bind_topFrame frames ((ends_holder top).before (fun caller here found => ?_)
    fun _ _ _ => trivial)
  obtain ⟨rfl, holder⟩ := found
  have resolved := Linking.ends_resolveInvoke_static caller.pool index kind (some caller) here
  have reaches := Linking.ends_resolveInvoke caller.pool index kind (some caller) (Steady.refl here)
  refine ((ends_self.and resolved).and reaches).before (fun method linked ended => ?_)
    fun _ _ _ => trivial
  obtain ⟨⟨ran, static⟩, steady, -⟩ := ended
  refine (ends_readyToCall_static kind method).before (fun ready asked ended => ?_)
    fun _ _ _ => trivial
  cases ready with
  | false =>
      obtain ⟨asks, starts⟩ := ended
      exact ends_pure ⟨caller, holder, .inl ⟨asks, .after_aside steady.toAside starts⟩⟩
  | true =>
      have dynamic : kind = .virtual ∨ kind = .interface → method.isStatic = false := by
        rintro (rfl | rfl) <;> simpa using static
      refine (ends_callWith_entered length dynamic).mono (fun _ later entered => ?_)
        fun _ _ _ => trivial
      obtain ⟨called, entered, same⟩ := entered
      refine ⟨caller, holder, .inr ⟨method, linked, called, ran, entered, ?_⟩⟩
      simpa [same] using static

/-- A step that executes an invoke instruction dispatches or leaves the frames where they are. -/
theorem ends_step_dispatches (frames : machine.thread.frames = top :: below) {kind : InvokeKind}
    {index length : Nat} (next : top.next? = some (.invoke kind index, length)) :
    step.Ends machine
      (fun _ later => ∃ caller log, top.method.owner.bind machine.classOf? = some caller ∧
        Dispatches { machine with log := log } caller kind index later)
      fun _ later => machine.Stays top below later := by
  obtain ⟨opcode, log, same⟩ := step_eq frames next
  let traced : Machine := { machine with log := log }
  have invoked := @ends_invoke_dispatches traced top below frames kind index length
  have dispatches : step.Ends machine
      (fun _ later => ∃ caller log, top.method.owner.bind machine.classOf? = some caller ∧
        Dispatches { machine with log := log } caller kind index later)
      fun _ _ => True := by
    unfold Ends
    rw [same]
    refine ends_mapFault (invoked.before (fun _ later done => ?_) fun _ _ _ => trivial)
    obtain ⟨caller, holder, dispatches⟩ := done
    exact ends_pure ⟨caller, log, holder, dispatches⟩
  exact (dispatches.and (ends_step_outcome frames)).mono (fun _ _ both => both.1)
    fun _ _ both => both.2

end Exec

namespace Machine

/-- The method that an instruction calls is static exactly if the instruction is `invokestatic`, but
for super calls that meet a static method; nothing else is entered, and a method of the wrong kind
that the reference itself stands for is refused.
- This is so of the method that is resolved and, by instructions that have a receiver, selected.
- A step enters a method of that kind, with its receiver in front unless it is `invokestatic`, or
  has an initializer started, or leaves the frames as they are. -/
theorem callee_static_iff_invokestatic_or_super_meets_static (machine : Machine) :
    (∀ (pool : Pool) (index : Int) (kind : InvokeKind) (caller : Option LinkedClass)
      (receiver : LinkedClass),
      (Linking.choose pool index kind caller receiver).Ends machine
        (fun method later => method.isStatic = true ↔ kind = .static ∨
          kind = .special ∧ ∃ c, caller = some c ∧ later.MeetsStatic pool index c)
        fun _ later => machine.Steady later) ∧
    (∀ (linked : Machine) (pool : Pool) (index : Int) (kind : InvokeKind)
      (caller : Option LinkedClass) (ref : Pool.Member) (c : LinkedClass) (named : Method),
      Linking.methodRef pool index kind = .ok ref →
      Loading.resolve ref.owner machine = .ok c linked →
      linked.findMethod? c.chain ref.name ref.descriptor = some named →
      named.isStatic ≠ (kind == .static) →
      ∃ fault, Linking.resolveInvoke pool index kind caller machine = .error (.fault fault) linked ∧
        fault.kind = .resolution ∧ fault.reason = some .noSuchMethod) ∧
    ∀ (top : Frame) (below : List Frame) (kind : InvokeKind) (index length : Nat),
      machine.thread.frames = top :: below → top.next? = some (.invoke kind index, length) →
      step.Ends machine
        (fun _ later => ∃ caller log, top.method.owner.bind machine.classOf? = some caller ∧
          Dispatches { machine with log := log } caller kind index later)
        fun _ later => machine.Stays top below later :=
  ⟨fun pool index kind caller receiver =>
      Linking.ends_choose_static pool index kind caller receiver machine,
    fun _ _ _ _ caller _ _ _ read loaded located differs =>
      Linking.resolveInvoke_refuses read loaded located differs caller,
    fun _ _ _ _ _ frames next => ends_step_dispatches frames next⟩

/-- The super call is next. -/
@[irreducible] def superCalling : Machine := (overridden.during? "run" 16 [] 1).getD overridden

/-- The super call of `run` enters the static `size`, with a receiver as its first local variable.
-/
theorem callee_static_superCalling :
    ∃ top below caller log, superCalling.thread.frames = top :: below ∧
      top.next? = some (.invoke .special 10, 3) ∧
      top.method.owner.bind superCalling.classOf? = some caller ∧
      Dispatches { superCalling with log := log } caller .special (10 : Nat)
        (step.after superCalling) ∧
      ((Linking.choose caller.pool 10 .special (some caller) caller).after superCalling).MeetsStatic
        caller.pool 10 caller ∧
      ∃ called ∈ (step.after superCalling).thread.frames.head?, called.method.isStatic = true ∧
        called.locals = #[.ref (some ⟨0, 0⟩)] := by
  obtain ⟨stands, on, enters, chooses⟩ :
      superCalling.thread.frames.head?.bind Frame.next? = some (.invoke .special 10, 3) ∧
      superCalling.stepsOn = true ∧
      (∃ called ∈ (step.after superCalling).thread.frames.head?, called.method.isStatic = true ∧
        called.locals = #[.ref (some ⟨0, 0⟩)]) ∧
      ((superCalling.thread.frames.head?.bind (·.method.owner)).bind superCalling.classOf?).all
        (fun caller =>
          ((Linking.choose caller.pool 10 .special (some caller) caller).answer? superCalling).any
            (·.isStatic)) = true := by decide +kernel
  obtain ⟨top, below, frames, next⟩ := exists_of_next? stands
  obtain ⟨chosen, -, steps⟩ := callee_static_iff_invokestatic_or_super_meets_static superCalling
  have ended := steps top below .special 10 3 frames next
  obtain ⟨caller, log, holder, dispatches⟩ := Ends.of_ok ended (step_of_stepsOn on)
  refine ⟨top, below, caller, log, frames, next, holder, dispatches, ?_, enters⟩
  rw [frames, List.head?_cons, Option.bind_some, holder, Option.all_some] at chooses
  obtain ⟨method, answer, static⟩ := (Option.any_eq_true _ _).mp chooses
  rcases ((chosen caller.pool 10 .special (some caller) caller).of_ok
    (run_of_answer? answer)).mp static with impossible | ⟨-, c, same, meets⟩
  · cases impossible
  · obtain rfl := Option.some.inj same
    exact meets

end Machine

end Jvm
