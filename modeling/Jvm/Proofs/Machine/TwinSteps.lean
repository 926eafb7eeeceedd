/-
# Jvm.Proofs.Machine.TwinSteps — steps of twins

Getting classes ready, linking and executing an instruction agree on twins, and so does a step
(`Twins.agree_step`). What a step takes from a frame and gives to another, to an object or to a
static field is held by the thread, because the frame had it.
-/
import Jvm.Proofs.Machine.TwinParts

namespace Jvm

set_option autoImplicit false

open Exec Machine

namespace Twins

variable {base : Machine} {twins : Twins base}

/-! ## Getting a class ready -/

section Initialization

open Initialization

theorem agree_setState (id : ClassId) (state : InitState) :
    Agree (setState id state) twins fun _ _ => True := by
  refine (agree_updateThread ?_ (.of_heap rfl rfl)).mono fun _ _ _ _ => trivial
  exact twins.sound.setInitState id state

theorem agree_failing {α : Type} (id : ClassId) {action : Exec α} {Done : α → Twins base → Prop}
    (agree : Agree action twins Done) : Agree (failing id action) twins Done :=
  agree_onHalt agree (fun later _ => later.sound.setInitState id .failed) fun _ => .of_heap rfl rfl

theorem agree_pushFrame {frame : Frame}
    (within : frame.Within twins.one.thread.number twins.one.thread.heap.objects.size) {id : ClassId}
    (owner : frame.method.owner = some id) (knows : twins.Knows id) :
    Agree (pushFrame frame) twins fun _ _ => True := by
  refine agree_bind_get (by rw [twins.options_eq, twins.same]) ?_
  split
  · exact agree_fail _
  · have pushed : Agree (updateThread fun thread => thread.pushFrame frame) twins fun _ later =>
        later.one.thread = twins.one.thread.pushFrame frame :=
      agree_updateThread (twins.sound.pushFrame within owner knows) (.of_heap rfl rfl)
    exact pushed.mono fun _ _ _ _ => trivial

theorem agree_runNative (c : LinkedClass) {method : Method} (sound : method.Sound) :
    Agree (Initialization.runNative c method.native) twins fun _ _ => True := by
  cases bound : method.native with
  | none => exact agree_fail _
  | some native =>
      refine (agree_native (sound.native native bound) fun _ listed => ?_).bind fun _ _ _ _ =>
        agree_pure trivial
      exact absurd listed List.not_mem_nil

theorem agree_start {c : LinkedClass} (shared : twins.Shared c) :
    Agree (start c) twins fun _ _ => True := by
  refine (agree_trace _ _).bind fun _ traced onward _ => ?_
  cases found : c.initializer? with
  | none => exact (agree_setState _ _).bind fun _ _ _ _ => agree_pure trivial
  | some method =>
      have listed : method ∈ c.methods := List.mem_of_find?_eq_some found
      have sourced := twins.sourced c shared.1
      refine (agree_setState _ _).bind fun _ marked onward' _ => ?_
      dsimp only
      split
      · refine (agree_failing _ (agree_runNative c (sourced.method listed))).bind fun _ _ _ _ => ?_
        exact (agree_setState _ _).bind fun _ _ _ _ => agree_pure trivial
      · have shared' := onward'.shared (onward.shared shared)
        refine (agree_failing _ (agree_pushFrame ?_ (sourced.owner listed)
          ⟨c, shared', rfl⟩)).bind fun _ _ _ _ => agree_pure trivial
        exact ⟨Locals.within_unset _, OperandStack.within_empty _⟩

theorem agree_initializeChain (ids : List ClassId) (knows : ∀ id ∈ ids, twins.Knows id) :
    Agree (initializeChain ids) twins fun _ _ => True := by
  induction ids generalizing twins with
  | nil => exact agree_pure trivial
  | cons id supers ih =>
      obtain ⟨known, above⟩ := List.forall_mem_cons.mp knows
      refine (agree_classOf known).bind fun c later _ ended => ?_
      obtain ⟨rfl, shared, -⟩ := ended
      refine (agree_prepare c).bind fun state prepared onward _ => ?_
      cases state with
      | ready => exact agree_pure trivial
      | running => exact agree_pure trivial
      | failed => exact agree_fail _
      | prepared =>
          refine (agree_failing id (ih fun id member => (above id member).onward onward)).bind
            fun ready later onward' _ => ?_
          split
          · exact agree_start (onward'.shared (onward.shared shared))
          · exact agree_pure trivial

theorem agree_ensureReady {c : LinkedClass} (shared : twins.Shared c) :
    Agree (ensureReady c) twins fun _ _ => True :=
  agree_initializeChain c.chain fun _ member => twins.knows_of_mem_chain shared member

end Initialization

/-! ## Linking -/

section Linking

open Linking

variable {α : Type} {chain : List ClassId}

theorem findInChain?_eq (view : LinkedClass → Option α) (knows : ∀ id ∈ chain, twins.Knows id) :
    twins.two.findInChain? view chain = twins.one.findInChain? view chain ∧
      ∀ c v, twins.one.findInChain? view chain = some (c, v) → twins.Shared c ∧ view c = some v := by
  induction chain with
  | nil => exact ⟨rfl, nofun⟩
  | cons id supers ih =>
      obtain ⟨⟨c, shared, rfl⟩, above⟩ := List.forall_mem_cons.mp knows
      obtain ⟨one, two⟩ := twins.classOf?_of_shared shared
      unfold findInChain?
      rw [one, two]
      dsimp only
      cases seen : view c with
      | some found =>
          refine ⟨rfl, fun d v same => ?_⟩
          cases same
          exact ⟨shared, seen⟩
      | none => exact ih above

theorem findMethod?_eq (knows : ∀ id ∈ chain, twins.Knows id) (name descriptor : String) :
    twins.two.findMethod? chain name descriptor = twins.one.findMethod? chain name descriptor ∧
      ∀ method, twins.one.findMethod? chain name descriptor = some method →
        twins.Offers method := by
  obtain ⟨same, from'⟩ := twins.findInChain?_eq (fun c => c.method? name descriptor) knows
  unfold findMethod?
  rw [same]
  refine ⟨rfl, fun method found => ?_⟩
  obtain ⟨⟨c, found'⟩, located, rfl⟩ := Option.map_eq_some_iff.mp found
  obtain ⟨shared, seen⟩ := from' c found' located
  exact ⟨c, shared, List.mem_of_find?_eq_some seen⟩

theorem agree_resolveNew (pool : Pool) (index : Int) :
    Agree (resolveNew pool index) twins fun c later => later.Shared c := by
  refine (agree_ofFault _).bind fun name later _ _ => ?_
  refine (agree_resolve name).bind fun c found _ shared => ?_
  exact agree_guard fun _ => agree_pure shared

theorem agree_resolveField (pool : Pool) (index : Int) (access : FieldAccess) :
    Agree (resolveField pool index access) twins fun field later => later.Shared field.owner := by
  refine (agree_ofFault _).bind fun ref later _ _ => ?_
  refine (agree_resolve ref.owner).bind fun c found _ shared => ?_
  obtain ⟨same, from'⟩ := found.findInChain?_eq (fun c => c.field? ref.name ref.descriptor)
    fun _ => found.knows_of_mem_chain shared
  refine agree_bind_get ?_ ?_
  · unfold findField?
    rw [same]
  · unfold findField?
    cases located : found.one.findInChain? (fun c => c.field? ref.name ref.descriptor) c.chain with
    | none => exact agree_throw _
    | some answer =>
        exact agree_guard fun _ => agree_pure (from' _ _ located).1

theorem agree_resolveInvoke (pool : Pool) (index : Int) (kind : InvokeKind) {caller : LinkedClass}
    (calls : twins.Shared caller) :
    Agree (resolveInvoke pool index kind (some caller)) twins fun method later =>
      later.Offers method := by
  refine (agree_ofFault _).bind fun ref later _ ended => ?_
  obtain ⟨-, rfl⟩ := ended
  refine (agree_resolve ref.owner).bind fun c found onward shared => ?_
  obtain ⟨same, offers⟩ := found.findMethod?_eq (fun _ => found.knows_of_mem_chain shared) ref.name
    ref.descriptor
  have knows : ∀ id ∈ caller.supers, found.Knows id := fun _ member =>
    found.knows_of_mem_chain (onward.shared calls) (List.mem_cons_of_mem caller.id member)
  obtain ⟨same', offers'⟩ := found.findMethod?_eq knows ref.name ref.descriptor
  refine agree_bind_get (by cases kind <;> simp only [same, same']) ?_
  cases located : found.one.findMethod? c.chain ref.name ref.descriptor with
  | none => exact agree_throw _
  | some method =>
      have offered := offers method located
      refine agree_guard fun _ => ?_
      cases kind with
      | special =>
          dsimp only
          split
          · refine agree_pure ?_
            cases above : found.one.findMethod? caller.supers ref.name ref.descriptor with
            | none => exact offered
            | some other => exact offers' other above
          · exact agree_pure offered
      | _ => exact agree_pure offered

theorem agree_selectVirtual {receiver : LinkedClass} (shared : twins.Shared receiver)
    {method : Method} (offers : twins.Offers method) :
    Agree (selectVirtual receiver method) twins fun selected later => later.Offers selected := by
  obtain ⟨same, offers'⟩ := twins.findMethod?_eq (fun _ => twins.knows_of_mem_chain shared)
    method.name method.descriptor
  unfold selectVirtual
  split
  · exact agree_pure offers
  · refine agree_bind_get (by rw [same]) ?_
    cases located : twins.one.findMethod? receiver.chain method.name method.descriptor with
    | none => exact agree_fail _
    | some selected => exact agree_guard fun _ => agree_pure (offers' selected located)

end Linking

/-! ## The top frame -/

section TopFrame

variable {α : Type}

theorem agree_topFrame : Agree topFrame twins fun frame later => later = twins ∧
    frame ∈ twins.one.thread.frames := by
  refine agree_bind_get (by rw [twins.same]) ?_
  split
  · rename_i frame below frames
    refine agree_pure ⟨rfl, ?_⟩
    rw [frames]
    exact List.mem_cons_self
  · exact agree_violate _

/-- An action on the top frame that makes no references. -/
theorem agree_onTop {action : FrameM α} {Answer : α → Prop} (continues : FrameM.Continues action)
    (confines : FrameM.Confines twins.one.thread.number twins.one.thread.heap.objects.size action
      Answer) : Agree (onTop action) twins fun v _ => Answer v := by
  have same := twins.same
  cases frames : twins.one.thread.frames with
  | nil =>
      have frames' : twins.two.thread.frames = [] := by rw [same, frames]
      exact .inr ⟨.violation .noFrame, twins, onTop_of_nil frames, onTop_of_nil frames', .refl twins⟩
  | cons top below =>
      have frames' : twins.two.thread.frames = top :: below := by rw [same, frames]
      have members : ∀ frame ∈ below, frame ∈ twins.one.thread.frames := by
        rw [frames]
        exact fun _ member => List.mem_cons_of_mem top member
      have first : top ∈ twins.one.thread.frames := by
        rw [frames]
        exact List.mem_cons_self
      -- the frames below the top one stay, and the top one is of the same method
      have sound {frame : Frame} (method : frame.method = top.method)
          (within : frame.Within twins.one.thread.number twins.one.thread.heap.objects.size) :
          (twins.one.thread.popFrame.pushFrame frame).Sound twins.Knows := by
        obtain ⟨id, owner, known⟩ := twins.sound.methods top first
        exact twins.sound.popFrame.pushFrame within (method ▸ owner) known
      have confined := confines top (twins.sound.closed.frames top first)
      have leaves (frame : Frame) : twins.two.withTop frame =
          { twins.two with thread := twins.one.thread.popFrame.pushFrame frame } := by
        rw [← same]
        rfl
      cases run : action top with
      | ok v frame =>
          rw [run] at confined
          refine .inl ⟨v, twins.withThread _ twins.one.log twins.two.log
            (sound (continues.of_ok run).method confined.1), onTop_of_ok frames run, ?_,
            onward_withThread (.of_heap rfl rfl), confined.2⟩
          rw [onTop_of_ok frames' run, leaves]
          rfl
      | error halt frame =>
          rw [run] at confined
          refine .inr ⟨halt, twins.withThread _ twins.one.log twins.two.log
            (sound (continues.of_error run).method confined), onTop_of_error frames run, ?_,
            onward_withThread (.of_heap rfl rfl)⟩
          rw [onTop_of_error frames' run, leaves]
          rfl

theorem agree_push {v : Value} (holds : twins.Holds v) :
    Agree (onTop (FrameM.push v)) twins fun _ _ => True :=
  agree_onTop (FrameM.continues_push v) (FrameM.confines_push holds)

theorem agree_advance (length : Nat) :
    Agree (onTop (FrameM.advance length)) twins fun _ _ => True :=
  agree_onTop (FrameM.continues_advance length) (FrameM.confines_advance length)

theorem agree_push_advance {v : Value} (holds : twins.Holds v) (length : Nat) :
    Agree (onTop do
      FrameM.push v
      FrameM.advance length) twins fun _ _ => True :=
  agree_onTop (FrameM.continues_bind (FrameM.continues_push v) fun _ =>
      FrameM.continues_advance length)
    ((FrameM.confines_push holds).bind fun _ _ => FrameM.confines_advance length)

theorem agree_pop (type : BasicType) :
    Agree (onTop (FrameM.pop type)) twins fun v later => later.Holds v := by
  have popped : Agree (onTop (FrameM.pop type)) twins fun v _ => twins.Holds v :=
    agree_onTop (FrameM.continues_pop type) (FrameM.confines_pop type)
  exact popped.mono fun _ _ onward held => held.onward onward

theorem agree_popRef :
    Agree (onTop FrameM.popRef) twins fun object later => later.Holds (.ref object) :=
  (agree_onTop FrameM.continues_popRef FrameM.confines_popRef).mono
    fun _ _ onward held => Holds.onward held onward

theorem agree_holder {frame : Frame} (member : frame ∈ twins.one.thread.frames) :
    Agree (holder frame) twins fun c later => later = twins ∧ twins.Shared c := by
  obtain ⟨id, owner, known⟩ := twins.sound.methods frame member
  unfold holder
  rw [owner]
  exact (agree_classOf known).mono fun c later _ ended => ⟨ended.1, ended.2.1⟩

theorem agree_currentPool : Agree currentPool twins fun _ later => later = twins := by
  refine agree_topFrame.bind fun frame later _ ended => ?_
  obtain ⟨rfl, member⟩ := ended
  refine (agree_holder member).bind fun c later _ ended => ?_
  obtain ⟨rfl, -⟩ := ended
  exact agree_pure rfl

end TopFrame

/-! ## Constants, objects and fields -/

theorem agree_loadConstant (index : Nat) (wide : Bool) (length : Nat) :
    Agree (loadConstant index wide length) twins fun _ _ => True := by
  refine agree_currentPool.bind fun pool later _ same => ?_
  refine (agree_ofFault _).bind fun constant later _ ended => ?_
  refine (agree_loadedValue ended.1).bind fun v loaded _ holds => ?_
  exact agree_push_advance holds length

theorem agree_create (index : Nat) (length : Nat) :
    Agree (create index length) twins fun _ _ => True := by
  refine agree_currentPool.bind fun pool later _ _ => ?_
  refine (agree_resolveNew pool index).bind fun c found _ shared => ?_
  refine (agree_ensureReady shared).bind fun ready asked onward _ => ?_
  split
  · refine (agree_allocate ⟨c, onward.shared shared, rfl⟩).bind fun ref made _ holds => ?_
    exact agree_push_advance holds length
  · exact agree_pure trivial

theorem holds_narrowedTo {type : BasicType} {v : Value} (holds : twins.Holds v) :
    twins.Holds (narrowedTo type v) := by
  unfold narrowedTo
  split
  · trivial
  · exact holds

theorem agree_checkField {ref : Ref} (holds : twins.Holds (.ref (some ref))) (field : LinkedField) :
    Agree (checkField ref field) twins fun _ _ => True := by
  refine (agree_object holds).bind fun object later _ ended => ?_
  obtain ⟨rfl, member⟩ := ended
  refine (agree_classOf (later.sound.classes object member)).bind fun c found _ _ => ?_
  split
  · exact agree_fail _
  · exact agree_pure trivial

section Fields

variable {field : LinkedField}

theorem agree_getStatic (shared : twins.Shared field.owner) (length : Nat) :
    Agree (getStatic field length) twins fun _ _ => True := by
  refine (agree_ensureReady shared).bind fun ready asked _ _ => ?_
  split
  · exact (agree_read _ _).bind fun v read _ holds => agree_push_advance holds length
  · exact agree_pure trivial

theorem agree_putStatic (shared : twins.Shared field.owner) (length : Nat) :
    Agree (putStatic field length) twins fun _ _ => True := by
  refine (agree_ensureReady shared).bind fun ready asked _ _ => ?_
  split
  · refine (agree_pop _).bind fun v popped _ holds => ?_
    exact (agree_write _ _ (holds_narrowedTo holds)).bind fun _ _ _ _ => agree_advance length
  · exact agree_pure trivial

theorem agree_getField (field : LinkedField) (length : Nat) :
    Agree (getField field length) twins fun _ _ => True := by
  refine agree_popRef.bind fun object popped _ holds => ?_
  cases object with
  | none => exact agree_fail _
  | some ref =>
      refine (agree_checkField holds field).bind fun _ checked onward _ => ?_
      refine (agree_field (holds.onward onward) _).bind fun v read _ held => ?_
      exact agree_push_advance held length

theorem agree_setField (field : LinkedField) (length : Nat) :
    Agree (setField field length) twins fun _ _ => True := by
  refine (agree_pop _).bind fun v first _ held => ?_
  refine agree_popRef.bind fun object popped onward holds => ?_
  cases object with
  | none => exact agree_fail _
  | some ref =>
      refine (agree_checkField holds field).bind fun _ checked onward' _ => ?_
      have held := (held.onward onward).onward onward'
      refine (agree_putField (holds.onward onward') _ (holds_narrowedTo held)).bind
        fun _ _ _ _ => agree_advance length

theorem agree_accessField (access : FieldAccess) (index length : Nat) :
    Agree (accessField access index length) twins fun _ _ => True := by
  refine agree_currentPool.bind fun pool later _ _ => ?_
  refine (agree_resolveField pool index access).bind fun field found _ shared => ?_
  cases access with
  | getStatic => exact agree_getStatic shared length
  | putStatic => exact agree_putStatic shared length
  | getField => exact agree_getField field length
  | putField => exact agree_setField field length

end Fields

/-! ## Calls -/

section Calls

variable {method : Method} {arguments : List Value}

theorem Offers.sound (offers : twins.Offers method) :
    method.Sound ∧ ∃ id, method.owner = some id ∧ twins.Knows id := by
  obtain ⟨c, shared, listed⟩ := offers
  have sourced := twins.sourced c shared.1
  exact ⟨sourced.method listed, c.id, sourced.owner listed, c, shared, rfl⟩

theorem agree_callNative (offers : twins.Offers method) (held : ∀ v ∈ arguments, twins.Holds v) :
    Agree (callNative method arguments) twins fun _ _ => True := by
  unfold callNative
  cases bound : method.native with
  | none => exact agree_fail _
  | some native =>
      refine (agree_native (offers.sound.1.native native bound) held).bind
        fun answer later _ holds => ?_
      dsimp only
      split
      · have result : later.Holds (answer.getD .void) := by
          cases answer with
          | none => trivial
          | some v => exact holds v rfl
        exact agree_guard fun _ => agree_push result
      · exact agree_pure trivial

theorem agree_enter (offers : twins.Offers method) (held : ∀ v ∈ arguments, twins.Holds v) :
    Agree (enter method arguments) twins fun _ _ => True := by
  unfold enter
  split
  · exact agree_callNative offers held
  · split
    · exact agree_fail _
    · refine (agree_ofHalt _).bind fun callee later _ ended => ?_
      obtain ⟨made, rfl⟩ := ended
      obtain ⟨-, id, owner, knows⟩ := offers.sound
      have within := Frame.within_withArguments held made
      obtain ⟨locals, rfl⟩ := Frame.withArguments_eq_ok made
      exact agree_pushFrame within owner knows

theorem agree_popReceiver (method : Method) :
    Agree (popReceiver method) twins fun ref later => later.Holds (.ref (some ref)) := by
  refine agree_popRef.bind fun object popped _ holds => ?_
  cases object with
  | none => exact agree_fail _
  | some ref => exact agree_pure holds

theorem agree_callee (kind : InvokeKind) (offers : twins.Offers method) {receiver : Ref}
    (holds : twins.Holds (.ref (some receiver))) :
    Agree (callee kind method receiver) twins fun selected later => later.Offers selected := by
  have selects : Agree (do
      let c ← classOf (← object receiver).classId
      Linking.selectVirtual c method) twins fun selected later => later.Offers selected := by
    refine (agree_object holds).bind fun object later _ ended => ?_
    obtain ⟨rfl, member⟩ := ended
    refine (agree_classOf (later.sound.classes object member)).bind fun c found _ ended => ?_
    obtain ⟨rfl, shared, -⟩ := ended
    exact agree_selectVirtual shared offers
  cases kind with
  | virtual | interface => exact selects
  | special | static => exact agree_pure offers

theorem agree_callWith (kind : InvokeKind) (offers : twins.Offers method) (length : Nat) :
    Agree (callWith kind method length) twins fun _ _ => True := by
  unfold callWith
  refine agree_guard fun _ => ?_
  refine (agree_onTop (FrameM.continues_popArguments _) (FrameM.confines_popArguments _)).bind
    fun arguments popped onward held => ?_
  have held : ∀ v ∈ arguments, popped.Holds v := fun v member =>
    Holds.onward (held v member) onward
  have offers := offers.onward onward
  have dispatch : Agree (do
      let receiver ← popReceiver method
      let selected ← callee kind method receiver
      onTop (FrameM.advance length)
      enter selected (.ref (some receiver) :: arguments)) popped fun _ _ => True := by
    refine (agree_popReceiver method).bind fun receiver taken onward holds => ?_
    refine (agree_callee kind (offers.onward onward) holds).bind fun selected chosen onward' offers' => ?_
    refine (agree_advance length).bind fun _ moved onward'' _ => ?_
    refine agree_enter (offers'.onward onward'') (List.forall_mem_cons.mpr ⟨?_, fun v member => ?_⟩)
    · exact (holds.onward onward').onward onward''
    · exact (((held v member).onward onward).onward onward').onward onward''
  cases kind with
  | static =>
      refine (agree_advance length).bind fun _ moved onward _ => ?_
      exact agree_enter (offers.onward onward) fun v member => (held v member).onward onward
  | _ => exact dispatch

theorem agree_readyToCall (kind : InvokeKind) (offers : twins.Offers method) :
    Agree (readyToCall kind method) twins fun _ _ => True := by
  obtain ⟨-, id, owner, knows⟩ := offers.sound
  unfold readyToCall
  cases kind with
  | static =>
      rw [owner]
      refine (agree_classOf knows).bind fun c later _ ended => ?_
      obtain ⟨rfl, shared, -⟩ := ended
      exact agree_ensureReady shared
  | _ => exact agree_pure trivial

theorem agree_invoke (kind : InvokeKind) (index length : Nat) :
    Agree (invoke kind index length) twins fun _ _ => True := by
  refine agree_topFrame.bind fun frame later _ ended => ?_
  obtain ⟨rfl, member⟩ := ended
  refine (agree_holder member).bind fun caller later _ ended => ?_
  obtain ⟨rfl, shared⟩ := ended
  refine (agree_resolveInvoke _ _ kind shared).bind fun method found _ offers => ?_
  refine (agree_readyToCall kind offers).bind fun ready asked onward _ => ?_
  split
  · exact agree_callWith kind (offers.onward onward) length
  · exact agree_pure trivial

end Calls

/-! ## Returning -/

theorem agree_pushOnCaller {v : Value} (holds : twins.Holds v) :
    Agree (pushOnCaller v) twins fun _ _ => True := by
  refine agree_bind_thread ?_
  split
  · rename_i top caller below frames
    cases pushed : caller.stack.push v with
    | error halt => exact agree_throw _
    | ok stack =>
        refine (agree_updateThread ?_ (.of_heap rfl rfl)).mono fun _ _ _ _ => trivial
        have frames' : (twins.one.thread.calls.modify 1 fun frame => { frame with stack := stack }).frames
            = top :: { caller with stack := stack } :: below := by
          show twins.one.thread.frames.modify 1 _ = _
          rw [frames]
          rfl
        have members : ∀ frame ∈ top :: caller :: below, frame ∈ twins.one.thread.frames := by
          rw [frames]
          exact fun _ member => member
        obtain ⟨first, second, rest⟩ : _ ∧ _ ∧ _ := by
          simpa only [List.forall_mem_cons] using members
        have held := twins.sound.closed.frames caller second
        refine twins.sound.withCalls ?_ ?_ <;> rw [frames']
        · refine List.forall_mem_cons.mpr ⟨twins.sound.closed.frames top first,
            List.forall_mem_cons.mpr ⟨⟨held.locals, held.stack.push holds pushed⟩, ?_⟩⟩
          exact fun frame member => twins.sound.closed.frames frame (rest frame member)
        · refine List.forall_mem_cons.mpr ⟨twins.sound.methods top first,
            List.forall_mem_cons.mpr ⟨twins.sound.methods caller second, ?_⟩⟩
          exact fun frame member => twins.sound.methods frame (rest frame member)
  · exact agree_violate _

theorem agree_leave (frame : Frame) : Agree (leave frame) twins fun _ _ => True := by
  have pops {twins : Twins base} : Agree popFrame twins fun _ _ => True := by
    have popped : Agree (updateThread fun thread => thread.popFrame) twins fun _ later =>
        later.one.thread = twins.one.thread.popFrame :=
      agree_updateThread twins.sound.popFrame (.of_heap rfl rfl)
    exact popped.mono fun _ _ _ _ => trivial
  unfold leave
  split
  · exact (agree_setState _ _).bind fun _ _ _ _ => pops
  · exact pops

theorem agree_returnValue (type : BasicType) :
    Agree (returnValue type) twins fun answer later => ∀ v ∈ answer, later.Holds v := by
  refine agree_topFrame.bind fun frame later _ _ => agree_guard fun _ => ?_
  have leaves {twins : Twins base} {v : Value} (holds : twins.Holds v) :
      Agree (do
        leave frame
        return if frame.isEntry then some v else none) twins
        fun answer later => ∀ v ∈ answer, later.Holds v := by
    refine (agree_leave frame).bind fun _ left onward _ => agree_pure ?_
    split
    · rintro w ⟨⟩
      exact holds.onward onward
    · exact nofun
  have rest {twins : Twins base} {v : Value} (holds : twins.Holds v) :
      Agree (do
        if ¬ frame.isEntry ∧ type ≠ .void then pushOnCaller v
        leave frame
        return if frame.isEntry then some v else none) twins
        fun answer later => ∀ v ∈ answer, later.Holds v := by
    by_cases inner : ¬ frame.isEntry ∧ type ≠ .void
    · rw [if_pos inner]
      exact (agree_pushOnCaller holds).bind fun _ pushed onward _ => leaves (holds.onward onward)
    · rw [if_neg inner]
      exact leaves holds
  dsimp only
  split
  · have nothing : Agree (pure Value.void) later fun v later => later.Holds v := agree_pure trivial
    exact nothing.bind fun v popped _ holds => rest holds
  · exact (agree_pop type).bind fun v popped _ holds => rest holds

/-! ## One step -/

/-- The instruction that is decoded next agrees on twins. -/
theorem agree_execute {instr : Instr} (plain : ∀ local', instr = .inFrame local' → local'.IsPlain)
    (length : Nat) :
    Agree (execute instr length) twins fun answer later => ∀ v ∈ answer, later.Holds v := by
  cases instr with
  | inFrame instr =>
      exact (agree_onTop (instr.continues_run length)
        (LocalInstr.confines_run (plain instr rfl) length)).bind fun _ _ _ _ => agree_pure nofun
  | constant index wide =>
      exact (agree_loadConstant index wide length).bind fun _ _ _ _ => agree_pure nofun
  | allocate index => exact (agree_create index length).bind fun _ _ _ _ => agree_pure nofun
  | field access index =>
      exact (agree_accessField access index length).bind fun _ _ _ _ => agree_pure nofun
  | invoke kind index => exact (agree_invoke kind index length).bind fun _ _ _ _ => agree_pure nofun
  | ret type => exact agree_returnValue type

theorem agree_traceInstruction (opcode : Nat) :
    Agree (traceInstruction opcode) twins fun _ _ => True := by
  refine agree_bind_get (by rw [twins.options_eq, twins.same]) ?_
  split
  · refine agree_topFrame.bind fun frame later _ _ => ?_
    exact (agree_trace _ _).mono fun _ _ _ _ => trivial
  · exact agree_pure trivial

theorem agree_executeAt (code : Code) (bci opcode : Nat) :
    Agree (executeAt code bci opcode) twins fun answer later => ∀ v ∈ answer, later.Holds v := by
  unfold executeAt
  refine agree_guard fun _ => ?_
  split
  · exact agree_fail _
  · refine (agree_traceInstruction opcode).bind fun _ _ _ _ => ?_
    exact agree_execute (fun _ => Instr.isPlain_of_decode) _

/-- A step of twins is the same, and what it answers the thread holds. -/
theorem agree_step : Agree step twins fun answer later => ∀ v ∈ answer, later.Holds v := by
  refine agree_topFrame.bind fun frame later _ _ => ?_
  dsimp only
  split
  · exact agree_mapFault (agree_fail _)
  · exact agree_mapFault (agree_executeAt _ _ _)

theorem agree_runAbove (depth fuel : Nat) {result : Value} (holds : twins.Holds result) :
    Agree (runAbove depth result fuel) twins fun v later => later.Holds v := by
  induction fuel generalizing twins result with
  | zero => exact agree_throw _
  | succ fuel ih =>
      refine agree_bind_thread ?_
      split
      · refine agree_step.bind fun answer later onward held => ih ?_
        cases answer with
        | none => exact holds.onward onward
        | some v => exact held v rfl
      · exact agree_pure holds

end Twins

end Jvm
