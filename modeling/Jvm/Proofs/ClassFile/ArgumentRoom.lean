/-
# Jvm.Proofs.ClassFile.ArgumentRoom — room for the arguments of a method

The reader refuses a method with code whose arguments take more variables than it has. It compares
the number of argument slots that is kept in the method, which is the true number in sixteen bits
(`gives_method_measured`). A descriptor can spell more parameters than that, and then a method is
accepted that no call can pass its arguments to; all other methods can hold theirs
(`Class.arguments_fit_iff`).
-/
import Jvm.Machine.Call
import Jvm.Proofs.ClassFile.Declared
import Jvm.Proofs.Frame.Arguments
import Jvm.Proofs.Frame.Placement

namespace Jvm

set_option autoImplicit false

open OperandStack (width width_cons)

namespace Method

/-- The slots that the arguments of a method take, the receiver included. -/
def neededSlots (method : Method) : Nat :=
  ((Descriptor.paramTypes method.descriptor).map BasicType.size).sum +
    if method.isStatic then 0 else 1

/-- The argument slots are counted in sixteen bits, and the variables of the method are enough for
this number. -/
structure Measured (method : Method) : Prop where
  argSlots : method.argSlots = method.neededSlots % 65536
  room : method.hasCode = true → method.argSlots ≤ method.body.maxLocals
  few : method.body.maxLocals < 65536

theorem argSlots_ofDescriptor {name descriptor : PoolText} {flags : AccessFlags} {body : Body}
    {method : Method} (valid : Descriptor.isValidMethod descriptor.text = true)
    (made : Method.ofDescriptor name descriptor flags body = .ok method) :
    method.argSlots = method.neededSlots % 65536 ∧ method.body = body := by
  unfold Method.ofDescriptor at made
  rw [Descriptor.paramSlots?_of_valid valid] at made
  cases made
  exact ⟨rfl, rfl⟩

end Method

namespace ClassFile.Reader

theorem gives_body_few (pool : Pool) (length : Nat) :
    Gives (fun body => body.maxLocals < 65536) (body pool length) := by
  unfold body
  refine gives_after fun cursor => gives_after fun maxStack =>
    gives_bind (gives_number 2) fun maxLocals few => gives_after fun codeLength => ?_
  dsimp only
  split
  · exact gives_after fun _ =>
      gives_bind (gives_throw (P := fun _ => False) _) fun _ never => never.elim
  · refine gives_after fun code => gives_after fun exceptionCount => gives_after fun exceptions =>
      gives_after fun lines => gives_after fun later => ?_
    split
    · exact gives_after fun _ => gives_after fun _ => gives_pure few
    · exact gives_pure few

theorem gives_requireBody_few (name descriptor : String) (flags : AccessFlags)
    {found : Option Body} (few : ∀ body ∈ found, body.maxLocals < 65536) :
    Gives (fun body => body.maxLocals < 65536) (requireBody name descriptor flags found) := by
  unfold requireBody
  dsimp only
  split
  · split
    · exact gives_pure (Nat.zero_lt_succ _)
    · exact gives_after fun _ => gives_throw _
  · split
    · exact gives_after fun _ => gives_throw _
    · exact gives_pure (few _ rfl)

theorem gives_method_measured (pool : Pool) (owner : String) :
    Gives Method.Measured (method pool owner) := by
  unfold method
  refine gives_after fun bits => gives_after fun nameIndex => gives_after fun descriptorIndex =>
    gives_after fun name => gives_after fun descriptor => ?_
  dsimp only
  split
  · exact gives_bind (gives_throw (P := fun _ => False) _) fun _ never => never.elim
  · rename_i valid
    refine gives_bind (gives_attributes (fun found header few =>
      gives_methodAttribute (gives_body_few pool) name few header) nofun) fun found few => ?_
    refine gives_bind (gives_requireBody_few _ _ _ few) fun body few => ?_
    split
    · exact gives_throw _
    · rename_i made
      obtain ⟨slots, rfl⟩ := Method.argSlots_ofDescriptor (Decidable.not_not.mp valid) made
      split
      · exact gives_after fun _ =>
          gives_bind (gives_throw (P := fun _ => False) _) fun _ never => never.elim
      · rename_i room
        refine gives_pure ⟨slots, fun code => ?_, few⟩
        exact Nat.not_lt.mp fun full => room ⟨code, full⟩

/-- What every method that is read satisfies, the methods of a class do. -/
theorem gives_wholeClass_methods {P : Method → Prop}
    (reads : ∀ pool owner, Gives P (method pool owner)) :
    Gives (fun c => ∀ method ∈ c.methods, P method) wholeClass := by
  unfold wholeClass
  refine gives_after fun version => gives_after fun pool =>
    gives_after fun flags => gives_after fun nameIndex => gives_after fun name =>
    gives_after fun superName => gives_after fun interfaceCount => gives_after fun interfaces =>
    gives_after fun fieldCount => gives_after fun fields => gives_after fun methodCount =>
    gives_bind (gives_many (reads pool name) methodCount) fun methods listed =>
    gives_after fun sourceIndex => gives_after fun cursor => ?_
  dsimp only
  split
  · exact gives_after fun _ => gives_after fun _ => gives_pure listed.2
  · exact gives_pure listed.2

theorem measured_ofBytes {source : String} {bytes : List UInt8} {c : Class}
    (read : Class.ofBytes source bytes = .ok c) : ∀ method ∈ c.methods, method.Measured := by
  unfold Class.ofBytes at read
  split at read
  · rename_i found later run
    cases read
    exact gives_wholeClass_methods gives_method_measured _ _ _ run
  · cases read

end ClassFile.Reader

/-! ## Calls -/

namespace Call

theorem map_type_of_checkTypes {method : Method} {position : Nat} {types : List BasicType}
    {values : List Value} (checked : checkTypes method position types values = .ok ()) :
    values.map Value.type = types.map BasicType.stackType := by
  induction types generalizing position values with
  | nil =>
      cases values with
      | nil => rfl
      | cons v rest => cases checked
  | cons type types ih =>
      cases values with
      | nil => cases checked
      | cons v rest =>
          unfold checkTypes at checked
          split at checked
          · rename_i same
            rw [List.map_cons, List.map_cons, same, ih checked]
          · cases checked

theorem map_type_of_checkArguments {method : Method} {arguments : List Value}
    (checked : checkArguments method arguments = .ok ()) :
    arguments.map Value.type = Descriptor.argumentTypes method.isStatic method.descriptor := by
  unfold checkArguments at checked
  unfold Descriptor.argumentTypes
  dsimp only at checked
  split at checked
  · rename_i static
    rw [if_pos static, List.nil_append]
    exact map_type_of_checkTypes checked
  · rename_i instance'
    rw [if_neg instance', List.singleton_append]
    split at checked
    · rename_i receiver rest
      split at checked
      · rename_i reference
        have object : receiver.type = .object := eq_of_beq reference
        rw [List.map_cons, object, map_type_of_checkTypes checked]
      · cases checked
    · cases checked

/-- Arguments of the right types take the slots that the method needs. -/
theorem width_of_argumentTypes {method : Method} {arguments : List Value}
    (types : arguments.map Value.type =
      Descriptor.argumentTypes method.isStatic method.descriptor) :
    width arguments = method.neededSlots := by
  have sizes : arguments.map Value.size = (arguments.map Value.type).map BasicType.size := by
    rw [List.map_map]
    rfl
  have spelled : ((Descriptor.paramTypes method.descriptor).map BasicType.stackType).map
      BasicType.size = (Descriptor.paramTypes method.descriptor).map BasicType.size := by
    rw [List.map_map]
    exact List.map_congr_left fun type _ => BasicType.size_stackType type
  unfold width Method.neededSlots
  rw [sizes, types, Descriptor.argumentTypes, List.map_append, List.sum_append, spelled,
    Nat.add_comm]
  cases method.isStatic <;> rfl

section Ready

variable {method : Method} {arguments : List Value}
  (bodied : ¬ (method.isNative = true ∨ method.isAbstract = true)) (code : method.hasCode = true)

include bodied code

/-- A method with code is run in an entry frame, if one with its arguments can be made. -/
theorem runReady_eq (fuel : Nat) (arguments : List Value) (machine : Machine) :
    runReady fuel method arguments machine =
      match Frame.withArguments method arguments with
      | .ok frame => (do
          Exec.pushFrame { frame with isEntry := true }
          Exec.runAbove machine.thread.depth .void fuel) machine
      | .error halt => .error halt machine := by
  rw [not_or] at bodied
  unfold runReady
  rw [if_neg bodied.1, if_neg (by simp [bodied.2, code])]
  show (Exec.ofHalt (Frame.withArguments method arguments) >>= fun frame => do
    Exec.pushFrame { frame with isEntry := true }
    Exec.runAbove machine.thread.depth .void fuel) machine = _
  cases Frame.withArguments method arguments <;> rfl

theorem runReady_of_fits
    (types : arguments.map Value.type = Descriptor.argumentTypes method.isStatic method.descriptor)
    (fits : method.neededSlots ≤ method.body.maxLocals) :
    ∃ frame : Frame, frame.StartsWith method arguments ∧
      ∀ fuel machine, runReady fuel method arguments machine = (do
        Exec.pushFrame { frame with isEntry := true }
        Exec.runAbove machine.thread.depth .void fuel) machine := by
  have sized := Descriptor.size_of_argumentTypes types
  rw [← width_of_argumentTypes types] at fits
  refine ⟨_, Frame.startsWith_ofArguments sized fits, fun fuel machine => ?_⟩
  rw [runReady_eq bodied code, Frame.withArguments_of_fits sized fits]

theorem runReady_of_not_fits
    (types : arguments.map Value.type = Descriptor.argumentTypes method.isStatic method.descriptor)
    (full : method.body.maxLocals < method.neededSlots) :
    ∃ cause : Cause, cause.kind = .frame ∧
      ∀ fuel machine, runReady fuel method arguments machine = .error cause.halt machine := by
  have sized := Descriptor.size_of_argumentTypes types
  rw [← width_of_argumentTypes types] at full
  obtain ⟨cause, refused, kind⟩ := Frame.withArguments_of_not_fits sized full
  refine ⟨cause, kind, fun fuel machine => ?_⟩
  rw [runReady_eq bodied code, refused]

end Ready

end Call

/-- In a method of a class file the argument slots are counted in sixteen bits and fit into its
variables. It can hold its arguments, and the count is their number, exactly if they take fewer than
65536 slots. Then a call with arguments of the right types finds them in its first variables; any
other method is refused them with a frame fault whenever it is called. -/
theorem Class.arguments_fit_iff {source : String} {bytes : List UInt8} {c : Class} {method : Method}
    (read : Class.ofBytes source bytes = .ok c) (listed : method ∈ c.methods)
    (code : method.hasCode = true) :
    (method.argSlots = method.neededSlots % 65536 ∧ method.argSlots ≤ method.body.maxLocals) ∧
      (method.neededSlots < 65536 ↔
        method.argSlots = method.neededSlots ∧ method.neededSlots ≤ method.body.maxLocals) ∧
      ∀ (owner : Option ClassId) (arguments : List Value),
        Call.checkArguments { method with owner := owner } arguments = .ok () →
          (method.neededSlots < 65536 → ∃ frame : Frame,
            frame.StartsWith { method with owner := owner } arguments ∧
              ∀ fuel machine, Call.runReady fuel { method with owner := owner } arguments machine =
                (do
                  Exec.pushFrame { frame with isEntry := true }
                  Exec.runAbove machine.thread.depth .void fuel) machine) ∧
          (65536 ≤ method.neededSlots → ∃ cause : Cause, cause.kind = .frame ∧
            ∀ fuel machine, Call.runReady fuel { method with owner := owner } arguments machine =
              .error cause.halt machine) := by
  have measured := ClassFile.Reader.measured_ofBytes read method listed
  have declared := (ClassFile.Reader.declaredClass_ofBytes read).methods method listed
  have bodied := declared.bodied.mp code
  have few := measured.few
  have room := measured.room code
  have argSlots := measured.argSlots
  refine ⟨⟨argSlots, room⟩, by omega, fun owner arguments checked => ?_⟩
  have types := Call.map_type_of_checkArguments checked
  exact ⟨fun small => Call.runReady_of_fits bodied code types
      (show method.neededSlots ≤ method.body.maxLocals by omega),
    fun large => Call.runReady_of_not_fits bodied code types
      (show method.body.maxLocals < method.neededSlots by omega)⟩

/-- The file of a class with an instance method `take(JI)V`, which has four variables. -/
def takerFile : List UInt8 :=
  [202, 254, 186, 190, 0, 0, 0, 52, 0, 8, 1, 0, 5, 84, 97, 107, 101, 114, 7, 0, 1, 1, 0, 16, 106,
    97, 118, 97, 47, 108, 97, 110, 103, 47, 79, 98, 106, 101, 99, 116, 7, 0, 3, 1, 0, 4, 67, 111,
    100, 101, 1, 0, 4, 116, 97, 107, 101, 1, 0, 5, 40, 74, 73, 41, 86, 0, 33, 0, 2, 0, 4, 0, 0, 0,
    0, 0, 1, 0, 1, 0, 6, 0, 7, 0, 1, 0, 5, 0, 0, 0, 13, 0, 0, 0, 4, 0, 0, 0, 1, 177, 0, 0, 0, 0,
    0, 0]

/-- The receiver, the two slots of the `long` and the `int` are the four variables of the method. -/
theorem Class.arguments_fit_iff_taker :
    ∃ (c : Class) (method : Method), Class.ofBytes "Taker" takerFile = .ok c ∧
      method ∈ c.methods ∧ method.hasCode = true ∧ method.argSlots = 4 ∧
      ∃ frame : Frame, (Call.checkArguments { method with owner := some ⟨"Taker", 0⟩ }
          [.null, .long 1, .int 2] = .ok ()) ∧
        frame.locals.slotValue 1 = .long 1 ∧ frame.locals.slotValue 2 = .void ∧
        frame.locals.slotValue 3 = .int 2 ∧
        ∀ fuel machine, Call.runReady fuel { method with owner := some ⟨"Taker", 0⟩ }
          [.null, .long 1, .int 2] machine = (do
            Exec.pushFrame { frame with isEntry := true }
            Exec.runAbove machine.thread.depth .void fuel) machine := by
  have found : ((Class.ofBytes "Taker" takerFile).toOption.any fun c => c.methods.any fun method =>
      method.hasCode && method.neededSlots == 4 &&
        (Call.checkArguments { method with owner := some ⟨"Taker", 0⟩ }
          [.null, .long 1, .int 2]).isOk) = true := by decide +kernel
  cases read : Class.ofBytes "Taker" takerFile with
  | error fault =>
      rw [read] at found
      cases found
  | ok c =>
      rw [read] at found
      obtain ⟨method, listed, checks⟩ := List.any_eq_true.mp found
      simp only [Bool.and_eq_true, beq_iff_eq] at checks
      obtain ⟨⟨code, four⟩, accepted⟩ := checks
      have checked : Call.checkArguments { method with owner := some ⟨"Taker", 0⟩ }
          [.null, .long 1, .int 2] = .ok () := by
        cases outcome : Call.checkArguments { method with owner := some ⟨"Taker", 0⟩ }
            [.null, .long 1, .int 2] with
        | ok _ => rfl
        | error cause =>
            rw [outcome] at accepted
            cases accepted
      obtain ⟨-, few, calls⟩ := arguments_fit_iff read listed code
      have small : method.neededSlots < 65536 := by rw [four]; decide
      obtain ⟨frame, starts, runs⟩ := (calls _ _ checked).1 small
      have long := starts.placed [.null] (.long 1) [.int 2] rfl
      exact ⟨c, method, rfl, listed, code, (few.mp small).1.trans four, frame, checked, long.1,
        long.2 rfl, (starts.placed [.null, .long 1] (.int 2) [] rfl).1, runs⟩

end Jvm
