/-
# Jvm.Proofs.ClassFile.PrefixFree — no class file begins another

Every reader of a part of a class file is `Exact`, up to `exact_contents` for all of a class but the
check that nothing follows. So a file that is accepted is refused when it is cut anywhere, since
the reader would have taken the bytes that are missing, and when anything is added, since the
reader stops where the file ended (`ofBytes_prefix_free`). Either way it is malformed.
-/
import Jvm.Proofs.ClassFile.Reads
import Jvm.Proofs.ClassFile.Written

namespace Jvm

set_option autoImplicit false

/-! ## What checking a pool finds wrong is malformed -/

namespace Pool

theorem format_of_checkReferences {pool : Pool} {index : Nat} {tag : Tag}
    {references : List (Int × Target)} {fault : Fault}
    (wrong : pool.checkReferences index tag references = .error fault) : fault.kind = .format := by
  induction references with
  | nil => cases wrong
  | cons reference rest ih =>
      obtain ⟨target, kind⟩ := reference
      unfold checkReferences at wrong
      split at wrong
      · rename_i first
        cases wrong
        unfold checkReference at first
        split at first
        · cases first
          rfl
        · split at first
          · cases first
            rfl
          · split at first
            · cases first
            · cases first
              rfl
      · exact ih wrong

theorem format_of_verifyFrom {pool : Pool} {index : Nat} {skip : Bool} {slots : List (Option Entry)}
    {fault : Fault} (wrong : pool.verifyFrom index skip slots = .error fault) :
    fault.kind = .format := by
  induction slots generalizing index skip with
  | nil => cases wrong
  | cons slot rest ih =>
      unfold verifyFrom at wrong
      split at wrong
      · exact ih wrong
      · split at wrong
        · cases wrong
          rfl
        · split at wrong
          · rename_i first
            cases wrong
            exact format_of_checkReferences first
          · exact ih wrong

end Pool

namespace ClassFile.Reader

open Pool (Entry Tag)

variable {α : Type}

/-! ## Constants -/

theorem exact_pair {first second : Reader Nat} (one : Exact first) (two : Exact second) :
    Exact (pair first second) := one.bind fun _ => two.bind fun _ => exact_pure

theorem exact_constant {code : Nat} {reader : Reader Entry} (known : constant? code = some reader) :
    Exact reader := by
  unfold constant? at known
  split at known
  · cases known
  · cases known
    exact (exact_number 2).bind fun _ => (exact_take _).bind fun _ => exact_pure
  all_goals
    cases known
    exact (by first | exact exact_number _ | exact exact_pair (exact_number _) (exact_number _) :
      Exact _).bind fun _ => exact_pure

theorem exact_slots (length free : Nat) : Exact (slots length free) := by
  induction free using Nat.strongRecOn with
  | ind free ih =>
      cases free with
      | zero => exact exact_pure
      | succ free =>
          unfold slots
          refine (exact_number 1).bind fun code => ?_
          split
          · exact (refuses_after_source fun _ => refuses_fail rfl).exact
          · rename_i reader known
            split
            · refine (exact_constant known).bind fun entry => ?_
              exact (ih free (Nat.lt_succ_self free)).bind fun _ => exact_pure
            · split
              · exact (refuses_after_source fun _ => refuses_fail rfl).exact
              · rename_i free'
                refine (exact_constant known).bind fun entry => ?_
                exact (ih free' (by omega)).bind fun _ => exact_pure

theorem exact_pool : Exact pool := by
  refine (exact_number 2).bind fun length => ?_
  dsimp only
  split
  · exact (refuses_naming fun _ => rfl).exact
  · refine (exact_slots _ _).bind fun slots => ?_
    split
    · exact exact_pure
    · rename_i wrong
      exact (refuses_throw (Pool.format_of_verifyFrom wrong)).exact

/-! ## References and attributes -/

theorem exact_textAt (pool : Pool) (what : String) (index : Nat) : Exact (textAt pool what index) := by
  unfold textAt
  split
  · exact exact_pure
  · exact (refuses_after_source fun _ => refuses_fail rfl).exact

theorem exact_classNameAt (pool : Pool) (what : String) (index : Nat) :
    Exact (classNameAt pool what index) := by
  unfold classNameAt
  dsimp only
  split
  · exact exact_pure
  · exact (refuses_after_source fun _ => refuses_fail rfl).exact

theorem exact_superName (pool : Pool) (name : String) : Exact (superName pool name) := by
  refine (exact_number 2).bind fun index => ?_
  split
  · split
    · exact exact_pure
    · exact (refuses_after_source fun _ => refuses_fail rfl).exact
  · exact (exact_classNameAt _ _ _).bind fun _ => exact_pure

theorem exact_attributes {pool : Pool} {step : α → AttributeHeader → Reader α} {start : α}
    (exact : ∀ v header, Exact (step v header)) : Exact (attributes pool step start) := by
  refine (exact_number 2).bind fun count => exact_iterate (fun v => ?_) count start
  have header : Exact (attributeHeader pool) := (exact_number 2).bind fun index =>
    (exact_textAt _ _ _).bind fun _ => (exact_number 4).bind fun _ => exact_pure
  exact header.bind fun header => exact v header

theorem exact_skipAttribute (header : AttributeHeader) : Exact (skipAttribute header) := exact_skip _

/-! ## Fields -/

theorem exact_initialValue (pool : Pool) (name descriptor : String) (length : Nat) :
    Exact (initialValue pool name descriptor length) := by
  unfold initialValue
  dsimp only
  split
  · exact (refuses_naming fun _ => rfl).exact
  · refine (exact_number 2).bind fun index => ?_
    split
    · exact (refuses_naming fun _ => rfl).exact
    · split
      · exact (refuses_naming fun _ => rfl).exact
      · exact exact_pure

theorem exact_field (pool : Pool) (owner : String) : Exact (field pool owner) := by
  refine (exact_number 2).bind fun bits => (exact_number 2).bind fun nameIndex =>
    (exact_number 2).bind fun descriptorIndex => (exact_textAt _ _ _).bind fun name =>
    (exact_textAt _ _ _).bind fun descriptor => ?_
  dsimp only
  split
  · exact (refuses_fail rfl).bind.exact
  · refine (exact_attributes fun index header => ?_).bind fun _ => exact_pure
    split
    · exact exact_initialValue _ _ _ _
    · exact (exact_skipAttribute header).bind fun _ => exact_pure

/-! ## Methods -/

theorem exact_lineTable (length : Nat) : Exact (lineTable length) := by
  refine (exact_number 2).bind fun count => ?_
  dsimp only
  split
  · exact (refuses_naming fun _ => rfl).exact
  · refine exact_many ?_ count
    exact (exact_number 2).bind fun _ => (exact_number 2).bind fun _ => exact_pure

/-- What a body consists of, whatever length has been announced for it. -/
def bodyParts (pool : Pool) : Reader Body := do
  let maxStack ← u2
  let maxLocals ← u2
  let codeLength ← u4
  if codeLength = 0 ∨ 0xffff < codeLength then fail (.codeSize codeLength (← source))
  let code ← take codeLength
  let exceptions ← many exceptionRange (← u2)
  let lines ← attributes pool bodyAttribute []
  return ⟨maxStack, maxLocals, code.toArray, exceptions, lines⟩

theorem body_eq_measured (pool : Pool) (length : Nat) :
    body pool length = measured (bodyParts pool) length := by
  unfold body measured bodyParts
  simp only [bind_assoc]
  refine bind_congr fun start => bind_congr fun maxStack => bind_congr fun maxLocals =>
    bind_congr fun codeLength => ?_
  split
  · rfl
  · simp only [bind_assoc, pure_bind]

theorem exact_bodyParts (pool : Pool) : Exact (bodyParts pool) := by
  refine (exact_number 2).bind fun maxStack => (exact_number 2).bind fun maxLocals =>
    (exact_number 4).bind fun codeLength => ?_
  dsimp only
  split
  · exact (refuses_naming fun _ => rfl).exact
  · refine (exact_take _).bind fun code => (exact_number 2).bind fun count => ?_
    refine (exact_many ?_ count).bind fun exceptions => ?_
    · exact (exact_number 2).bind fun _ => (exact_number 2).bind fun _ =>
        (exact_number 2).bind fun _ => (exact_number 2).bind fun _ => exact_pure
    · refine (exact_attributes fun lines header => ?_).bind fun _ => exact_pure
      unfold bodyAttribute
      split
      · exact exact_lineTable _
      · exact (exact_skipAttribute header).bind fun _ => exact_pure

theorem exact_methodAttribute (pool : Pool) (name : String) (found : Option Body)
    (header : AttributeHeader) : Exact (methodAttribute pool name found header) := by
  unfold methodAttribute
  split
  · dsimp only
    split
    · exact (refuses_naming fun _ => rfl).exact
    · rw [body_eq_measured]
      exact ((exact_bodyParts pool).measured _).bind fun _ => exact_pure
  · exact (exact_skipAttribute header).bind fun _ => exact_pure

theorem exact_requireBody (name descriptor : String) (flags : AccessFlags) (found : Option Body) :
    Exact (requireBody name descriptor flags found) := by
  unfold requireBody
  dsimp only
  split
  · split
    · exact exact_pure
    · exact (refuses_after_source fun _ => refuses_fail rfl).exact
  · split
    · exact (refuses_after_source fun _ => refuses_fail rfl).exact
    · exact exact_pure

theorem format_of_ofDescriptor {name descriptor : PoolText} {flags : AccessFlags} {body : Body}
    {cause : Cause} (wrong : Method.ofDescriptor name descriptor flags body = .error cause) :
    cause.kind = .format := by
  unfold Method.ofDescriptor at wrong
  split at wrong
  · cases wrong
    rfl
  · cases wrong

theorem exact_method (pool : Pool) (owner : String) : Exact (method pool owner) := by
  refine (exact_number 2).bind fun bits => (exact_number 2).bind fun nameIndex =>
    (exact_number 2).bind fun descriptorIndex => (exact_textAt _ _ _).bind fun name =>
    (exact_textAt _ _ _).bind fun descriptor => ?_
  dsimp only
  split
  · exact (refuses_fail rfl).bind.exact
  · refine (exact_attributes (exact_methodAttribute pool name)).bind fun found =>
      (exact_requireBody _ _ _ _).bind fun body => ?_
    split
    · rename_i wrong
      exact (refuses_fail (format_of_ofDescriptor wrong)).exact
    · split
      · exact (refuses_naming fun _ => rfl).exact
      · exact exact_pure

/-! ## Classes -/

theorem exact_version : Exact version := by
  refine (exact_number 4).bind fun found => ?_
  dsimp only
  split
  · exact (refuses_naming fun _ => rfl).exact
  · refine (exact_number 2).bind fun minor => (exact_number 2).bind fun major => ?_
    split
    · exact (refuses_naming fun _ => rfl).exact
    · exact exact_pure

theorem exact_classFlags : Exact classFlags := by
  refine (exact_number 2).bind fun bits => ?_
  dsimp only
  split
  · exact (refuses_naming fun _ => rfl).exact
  · exact exact_pure

theorem exact_classAttribute (pool : Pool) (sourceIndex : Nat) (header : AttributeHeader) :
    Exact (classAttribute pool sourceIndex header) := by
  unfold classAttribute
  split
  · dsimp only
    split
    · exact (refuses_naming fun _ => rfl).exact
    · exact (exact_number 2).bind fun index => (exact_textAt _ _ _).bind fun _ => exact_pure
  · exact (exact_skipAttribute header).bind fun _ => exact_pure

/-- A class, whatever follows it. -/
def contents : Reader Class := do
  let version ← version
  let pool ← pool
  let flags ← classFlags
  let name ← classNameAt pool "this_class" (← u2)
  let superName ← superName pool name
  let interfaces ← many (interface pool) (← u2)
  let fields ← many (field pool name) (← u2)
  let methods ← many (method pool name) (← u2)
  let sourceIndex ← attributes pool (classAttribute pool) 0
  return {
    name := name
    superName := superName
    flags := flags
    major := version.major
    minor := version.minor
    pool := pool
    interfaces := interfaces
    fields := fields
    methods := methods
    sourceIndex := sourceIndex
    hiddenSlots := 0 }

/-- The end of a class must be the end of the file. -/
def closed (c : Class) : Reader Class := do
  if ¬ (← get).atEnd then fail (.trailingBytes (← source))
  return c

theorem wholeClass_eq : wholeClass = contents >>= closed := by
  unfold wholeClass contents closed
  simp only [bind_assoc, pure_bind]

theorem exact_contents : Exact contents :=
  exact_version.bind fun _ => exact_pool.bind fun pool => exact_classFlags.bind fun _ =>
    (exact_number 2).bind fun _ => (exact_classNameAt _ _ _).bind fun _ =>
    (exact_superName _ _).bind fun _ =>
    (exact_number 2).bind fun interfaceCount =>
    (exact_many ((exact_number 2).bind fun _ => exact_classNameAt _ _ _) interfaceCount).bind fun _ =>
    (exact_number 2).bind fun fieldCount => (exact_many (exact_field _ _) fieldCount).bind fun _ =>
    (exact_number 2).bind fun methodCount => (exact_many (exact_method _ _) methodCount).bind fun _ =>
    (exact_attributes (exact_classAttribute pool)).bind fun _ => exact_pure

theorem closed_eq (c : Class) (cursor : Cursor) :
    closed c cursor =
      if cursor.rest = [] then .ok c cursor
      else .error (.of (.trailingBytes cursor.sourceName)) cursor := by
  unfold closed
  rw [bind_get]
  by_cases ended : cursor.rest = []
  · simp only [Cursor.atEnd, ended, List.isEmpty_nil, not_true_eq_false, if_false, if_true]
    rfl
  · simp only [Cursor.atEnd, ended, List.isEmpty_iff, not_false_eq_true, if_false, if_true]
    rfl

end ClassFile.Reader

namespace Class

open ClassFile ClassFile.Reader

/-- What the end of the file makes of a class that has been read. -/
theorem wholeClass_of_ok {cursor later : Cursor} {c : Class} (run : contents cursor = .ok c later) :
    wholeClass cursor =
      if later.rest = [] then .ok c later
      else .error (.of (.trailingBytes later.sourceName)) later := by
  rw [wholeClass_eq, bind_of_ok run, closed_eq]

theorem wholeClass_of_error {cursor later : Cursor} {fault : Fault}
    (run : contents cursor = .error fault later) : wholeClass cursor = .error fault later := by
  rw [wholeClass_eq, bind_of_error run]

theorem ofBytes_of_ok {source : String} {bytes : List UInt8} {c : Class} {later : Cursor}
    (run : wholeClass (.start (some source) bytes) = .ok c later) :
    Class.ofBytes source bytes = .ok c := by
  unfold Class.ofBytes
  rw [EStateM.run, run]

theorem ofBytes_of_error {source : String} {bytes : List UInt8} {fault : Fault} {later : Cursor}
    (run : wholeClass (.start (some source) bytes) = .error fault later) :
    Class.ofBytes source bytes = .error fault := by
  unfold Class.ofBytes
  rw [EStateM.run, run]

/-- A class file is accepted if it is just what the reader of a class takes. -/
theorem ofBytes_eq_ok {source : String} {bytes : List UInt8} {c : Class} :
    Class.ofBytes source bytes = .ok c ↔ Reads contents bytes c := by
  constructor
  · intro read
    cases run : contents (.start (some source) bytes) with
    | error fault later =>
        rw [ofBytes_of_error (wholeClass_of_error run)] at read
        cases read
    | ok d later =>
        obtain ⟨taken, split, reads⟩ := exact_contents.takes run
        have whole := wholeClass_of_ok run
        by_cases ended : later.rest = []
        · rw [if_pos ended] at whole
          rw [ofBytes_of_ok whole] at read
          obtain rfl := Except.ok.inj read
          rw [ended, List.append_nil] at split
          obtain rfl : bytes = taken := split
          exact reads
        · rw [if_neg ended] at whole
          rw [ofBytes_of_error whole] at read
          cases read
  · intro reads
    have run := reads (some source) 0 []
    rw [List.append_nil] at run
    exact ofBytes_of_ok (wholeClass_of_ok run)

/-- Whatever is refused is refused as malformed. -/
theorem format_of_ofBytes {source : String} {bytes : List UInt8} {fault : Fault}
    (refused : Class.ofBytes source bytes = .error fault) : fault.kind = .format := by
  cases run : contents (.start (some source) bytes) with
  | error fault' later =>
      rw [ofBytes_of_error (wholeClass_of_error run)] at refused
      cases refused
      exact exact_contents.refuses run
  | ok c later =>
      have whole := wholeClass_of_ok run
      split at whole
      · rw [ofBytes_of_ok whole] at refused
        cases refused
      · rw [ofBytes_of_error whole] at refused
        cases refused
        rfl

theorem exists_fault_of_short {short missing : List UInt8} {c : Class}
    (reads : Reads contents (short ++ missing) c) (incomplete : missing ≠ []) (source : String) :
    ∃ fault, Class.ofBytes source short = .error fault := by
  obtain ⟨fault, later, run⟩ := exact_contents.needs reads incomplete (some source) 0
  exact ⟨fault, ofBytes_of_error (wholeClass_of_error run)⟩

theorem exists_fault_of_extra {bytes extra : List UInt8} {c : Class}
    (reads : Reads contents bytes c) (more : extra ≠ []) (source : String) :
    ∃ fault, Class.ofBytes source (bytes ++ extra) = .error fault := by
  have whole := wholeClass_of_ok (reads (some source) 0 extra)
  rw [if_neg more] at whole
  exact ⟨_, ofBytes_of_error whole⟩

/-- **No accepted class file is the beginning of another.** All of its bytes are read; a file that
stops before its end, wherever that is, and a file that goes on after it are malformed. -/
theorem ofBytes_prefix_free {source : String} {bytes : List UInt8} {c : Class}
    (read : Class.ofBytes source bytes = .ok c) :
    wholeClass.run (.start (some source) bytes) = .ok c ⟨some source, bytes.length, []⟩ ∧
      (∀ (source : String) (short : List UInt8), short <+: bytes → short ≠ bytes →
        ∃ fault, Class.ofBytes source short = .error fault ∧ fault.kind = .format) ∧
      ∀ (source : String) (extra : List UInt8), extra ≠ [] →
        ∃ fault, Class.ofBytes source (bytes ++ extra) = .error fault ∧ fault.kind = .format := by
  have reads := ofBytes_eq_ok.mp read
  refine ⟨?_, ?_, ?_⟩
  · have run := reads (some source) 0 []
    rw [List.append_nil, Nat.zero_add] at run
    exact wholeClass_of_ok run
  · rintro source short ⟨missing, rfl⟩ cut
    have incomplete : missing ≠ [] := fun nothing => cut (by rw [nothing, List.append_nil])
    obtain ⟨fault, refused⟩ := exists_fault_of_short reads incomplete source
    exact ⟨fault, refused, format_of_ofBytes refused⟩
  · intro source extra more
    obtain ⟨fault, refused⟩ := exists_fault_of_extra reads more source
    exact ⟨fault, refused, format_of_ofBytes refused⟩

theorem ofBytes_prefix_free_counter :
    Class.ofBytes "Counter" counter.bytes = .ok counter.toClass ∧
      (∃ fault, Class.ofBytes "Counter" (counter.bytes.take 100) = .error fault ∧
        fault.kind = .format) ∧
      ∃ fault, Class.ofBytes "Counter" (counter.bytes ++ [0]) = .error fault ∧
        fault.kind = .format := by
  have read : Class.ofBytes "Counter" counter.bytes = .ok counter.toClass := by decide +kernel
  obtain ⟨-, shorter, longer⟩ := ofBytes_prefix_free read
  exact ⟨read, shorter _ _ (List.take_prefix 100 _) (by decide), longer _ [0] (by decide)⟩

end Class

end Jvm
