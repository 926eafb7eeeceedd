/-
# Jvm.Proofs.ClassFile.Declared — what a class read from a file declares

The checks that the reader makes of the pool, of names, of a method and of a field become facts
about the pool, every name, every method and every field of a class that was read
(`declaredClass_ofBytes`).
-/
import Jvm.Proofs.ClassFile.Checked
import Jvm.Proofs.ClassFile.Written

namespace Jvm.ClassFile.Reader

set_option autoImplicit false

/-! ## Texts and classes of the pool -/

theorem gives_textAt (pool : Pool) (what : String) (index : Nat) :
    Gives (fun text => pool.HasText ⟨index, text⟩) (textAt pool what index) := by
  unfold textAt
  split
  · exact gives_pure ‹_›
  · exact gives_after fun _ => gives_throw _

theorem gives_classNameAt (pool : Pool) (what : String) (index : Nat) :
    Gives (fun name => pool.HasClass ⟨index, name⟩) (classNameAt pool what index) := by
  unfold classNameAt
  dsimp only
  split
  · rename_i name found
    by_cases zero : index = 0
    · rw [if_pos zero] at found
      cases found
    · rw [if_neg zero] at found
      exact gives_pure ⟨zero, found⟩
  · exact gives_after fun _ => gives_throw _

/-- The superclass is named by a class constant, and only the root class has none. -/
theorem gives_superName (pool : Pool) (name : String) :
    Gives (fun super => (super = none → name = rootClass) ∧
      ∀ above ∈ super, ∃ index, pool.HasClass ⟨index, above⟩) (superName pool name) := by
  refine gives_after fun index => ?_
  split
  · split
    · rename_i root
      exact gives_pure ⟨fun _ => root, nofun⟩
    · exact gives_after fun _ => gives_throw _
  · refine gives_bind (gives_classNameAt pool _ index) fun above found => gives_pure ⟨nofun, ?_⟩
    rintro _ ⟨⟩
    exact ⟨index, found⟩

theorem gives_interface (pool : Pool) :
    Gives (fun name => ∃ index, pool.HasClass ⟨index, name⟩) (interface pool) :=
  gives_after fun index => (gives_classNameAt pool _ index).mono fun _ found => ⟨index, found⟩

/-! ## Methods -/

/-- The body has code, and its indices fit in sixteen bits. -/
def Coded (body : Body) : Prop := 0 < body.code.size ∧ body.code.size ≤ 0xffff

theorem gives_body (pool : Pool) (length : Nat) : Gives Coded (body pool length) := by
  unfold body
  refine gives_after fun cursor => gives_after fun maxStack => gives_after fun maxLocals =>
    gives_after fun codeLength => ?_
  dsimp only
  split
  · exact gives_after fun _ =>
      gives_bind (gives_throw (P := fun _ => False) _) fun _ never => never.elim
  · rename_i sized
    refine gives_bind (gives_take codeLength) fun code taken => ?_
    have size : code.toArray.size = codeLength := (List.size_toArray).trans taken
    refine gives_after fun exceptionCount => gives_after fun exceptions => gives_after fun lines =>
      gives_after fun later => ?_
    have coded : 0 < code.toArray.size ∧ code.toArray.size ≤ 0xffff := by omega
    split
    · exact gives_after fun _ => gives_after fun _ => gives_pure coded
    · exact gives_pure coded

/-- What every body that is read satisfies, the body of a method does. -/
theorem gives_methodAttribute {P : Body → Prop} {pool : Pool}
    (reads : ∀ length, Gives P (body pool length)) (name : String) {found : Option Body}
    (holds : ∀ body ∈ found, P body) (header : AttributeHeader) :
    Gives (fun (later : Option Body) => ∀ body ∈ later, P body)
      (methodAttribute pool name found header) := by
  have reading : Gives (fun (later : Option Body) => ∀ body ∈ later, P body)
      (do return some (← body pool header.length)) := by
    refine gives_bind (reads header.length) fun body satisfied => gives_pure ?_
    rintro _ ⟨⟩
    exact satisfied
  unfold methodAttribute
  split
  · split
    · exact gives_after fun _ => gives_after fun _ => reading
    · exact reading
  · exact gives_after fun _ => gives_pure holds

/-- There is code exactly if a method must have some. -/
theorem gives_requireBody (name descriptor : String) (flags : AccessFlags) {found : Option Body}
    (coded : ∀ body ∈ found, Coded body) :
    Gives (fun body => (body.code.size ≠ 0 ↔ ¬ (flags.isNative = true ∨ flags.isAbstract = true)) ∧
      body.code.size ≤ 0xffff) (requireBody name descriptor flags found) := by
  unfold requireBody
  dsimp only
  split
  · split
    · rename_i bodiless
      rw [Bool.or_eq_true] at bodiless
      exact gives_pure ⟨iff_of_false (not_not_intro rfl) (not_not_intro bodiless), Nat.zero_le _⟩
    · exact gives_after fun _ => gives_throw _
  · rename_i body
    split
    · exact gives_after fun _ => gives_throw _
    · rename_i bodied
      rw [Bool.or_eq_true] at bodied
      obtain ⟨some, few⟩ := coded body rfl
      exact gives_pure ⟨iff_of_true (Nat.pos_iff_ne_zero.mp some) bodied, few⟩

/-- A method as a file declares it: its name and its descriptor are texts of the pool, it has code
exactly if it is neither native nor abstract, the result is the one that the descriptor spells,
nothing is bound to it, and its class is not yet known. -/
structure DeclaredMethod (pool : Pool) (method : Method) : Prop where
  name : pool.HasText method.nameText
  spelling : pool.HasText method.descriptorText
  descriptor : Descriptor.isValidMethod method.descriptor = true
  bodied : method.hasCode = true ↔ ¬ (method.isNative = true ∨ method.isAbstract = true)
  codeSize : method.codeSize ≤ 0xffff
  result : method.result = Descriptor.resultType method.descriptor
  native : method.native = none
  owner : method.owner = none

theorem declaredMethod_ofDescriptor {pool : Pool} {name descriptor : PoolText}
    {flags : AccessFlags} {body : Body} {method : Method} (named : pool.HasText name)
    (spelled : pool.HasText descriptor) (valid : Descriptor.isValidMethod descriptor.text = true)
    (bodied : body.code.size ≠ 0 ↔ ¬ (flags.isNative = true ∨ flags.isAbstract = true))
    (small : body.code.size ≤ 0xffff)
    (made : Method.ofDescriptor name descriptor flags body = .ok method) :
    DeclaredMethod pool method := by
  unfold Method.ofDescriptor at made
  split at made
  · cases made
  · cases made
    exact ⟨named, spelled, valid, bne_iff_ne.trans bodied, small, rfl, rfl, rfl⟩

theorem gives_method (pool : Pool) (owner : String) :
    Gives (DeclaredMethod pool) (method pool owner) := by
  unfold method
  refine gives_after fun bits => gives_after fun nameIndex => gives_after fun descriptorIndex =>
    gives_bind (gives_textAt pool _ nameIndex) fun name named =>
    gives_bind (gives_textAt pool _ descriptorIndex) fun descriptor spelled => ?_
  dsimp only
  split
  · exact gives_bind (gives_throw (P := fun _ => False) _) fun _ never => never.elim
  · rename_i valid
    refine gives_bind (gives_attributes (fun found header coded =>
      gives_methodAttribute (gives_body pool) name coded header) nofun) fun found coded => ?_
    refine gives_bind (gives_requireBody _ _ _ coded) fun body bodied => ?_
    split
    · exact gives_throw _
    · rename_i made
      have declared := declaredMethod_ofDescriptor named spelled (Decidable.not_not.mp valid)
        bodied.1 bodied.2 made
      split
      · exact gives_after fun _ => gives_after fun _ => gives_pure declared
      · exact gives_pure declared

/-! ## Fields -/

/-- A field as a file declares it: its descriptor spells a type, and the slot of its initial value,
if it is static and has one, holds a constant of that type. -/
structure DeclaredField (pool : Pool) (field : Field) : Prop where
  descriptor : Descriptor.isValidField field.descriptor = true
  constant : field.constantIndex = 0 ∨
    field.isStatic = true ∧ pool.isWithin field.constantIndex = true ∧
      initialValueFits (pool.tagAt field.constantIndex) field.descriptor = true

theorem gives_initialValue (pool : Pool) (name descriptor : String) (length : Nat) :
    Gives (fun (index : Nat) => pool.isWithin index = true ∧
      initialValueFits (pool.tagAt index) descriptor = true)
      (initialValue pool name descriptor length) := by
  have refuse {cause : String → Cause} {next : Unit → Reader Nat} :
      Gives (fun (index : Nat) => pool.isWithin index = true ∧
        initialValueFits (pool.tagAt index) descriptor = true)
        (source >>= fun s => fail (cause s) >>= next) :=
    gives_after fun _ => gives_bind (gives_throw (P := fun _ => False) _) fun _ never => never.elim
  unfold initialValue
  dsimp only
  split
  · exact refuse
  · refine gives_after fun index => ?_
    split
    · exact refuse
    · rename_i within
      split
      · exact refuse
      · rename_i fits
        exact gives_pure ⟨by simpa using within, by simpa using fits⟩

/-- A field as a file declares it, with the texts of the pool that are its name and its
descriptor. -/
structure WrittenInPool (pool : Pool) (field : Field) : Prop extends DeclaredField pool field where
  name : ∃ index, pool.HasText ⟨index, field.name⟩
  spelling : ∃ index, pool.HasText ⟨index, field.descriptor⟩

theorem gives_field (pool : Pool) (owner : String) :
    Gives (WrittenInPool pool) (field pool owner) := by
  unfold field
  refine gives_after fun bits => gives_after fun nameIndex => gives_after fun descriptorIndex =>
    gives_bind (gives_textAt pool _ nameIndex) fun name named =>
    gives_bind (gives_textAt pool _ descriptorIndex) fun descriptor spelled => ?_
  dsimp only
  split
  · exact gives_bind (gives_throw (P := fun _ => False) _) fun _ never => never.elim
  · rename_i valid
    refine gives_bind (gives_attributes (P := fun (index : Nat) => index = 0 ∨
      (AccessFlags.ofNat bits).isStatic = true ∧ pool.isWithin index = true ∧
        initialValueFits (pool.tagAt index) descriptor = true) ?_ (Or.inl rfl)) ?_
    · intro index header held
      split
      · rename_i wanted
        exact (gives_initialValue pool name descriptor header.length).mono fun index found =>
          Or.inr ⟨wanted.2, found⟩
      · exact gives_after fun _ => gives_pure held
    · intro index found
      exact gives_pure ⟨⟨Decidable.not_not.mp valid, found⟩, ⟨nameIndex, named⟩,
        ⟨descriptorIndex, spelled⟩⟩

/-! ## Classes -/

theorem gives_classAttribute (pool : Pool) {sourceIndex : Nat}
    (held : sourceIndex = 0 ∨ ∃ text, pool.HasText ⟨sourceIndex, text⟩)
    (header : AttributeHeader) :
    Gives (fun (index : Nat) => index = 0 ∨ ∃ text, pool.HasText ⟨index, text⟩)
      (classAttribute pool sourceIndex header) := by
  have reads : Gives (fun (index : Nat) => index = 0 ∨ ∃ text, pool.HasText ⟨index, text⟩) (do
      let index ← u2
      let _ ← textAt pool "SourceFile" index
      return index) :=
    gives_after fun index => gives_bind (gives_textAt pool _ index) fun text found =>
      gives_pure (.inr ⟨text, found⟩)
  unfold classAttribute
  split
  · split
    · exact gives_after fun _ => gives_after fun _ => reads
    · exact reads
  · exact gives_after fun _ => gives_pure held

/-- A class as a file declares it. -/
structure DeclaredClass (c : Class) : Prop where
  pool : c.pool.Checked
  unused : c.pool.entryAt 0 = none
  name : ∃ index, c.pool.HasClass ⟨index, c.name⟩
  root : c.superName = none → c.name = rootClass
  super : ∀ above ∈ c.superName, ∃ index, c.pool.HasClass ⟨index, above⟩
  interfaces : ∀ name ∈ c.interfaces, ∃ index, c.pool.HasClass ⟨index, name⟩
  methods : ∀ method ∈ c.methods, DeclaredMethod c.pool method
  fields : ∀ field ∈ c.fields, WrittenInPool c.pool field
  fieldCount : c.fields.length < 65536
  source : c.sourceIndex = 0 ∨ ∃ text, c.pool.HasText ⟨c.sourceIndex, text⟩

theorem gives_wholeClass : Gives DeclaredClass wholeClass := by
  unfold wholeClass
  refine gives_after fun version => gives_bind gives_pool fun pool checked =>
    gives_after fun flags => gives_after fun nameIndex =>
    gives_bind (gives_classNameAt pool _ nameIndex) fun name named =>
    gives_bind (gives_superName pool name) fun superName super =>
    gives_after fun interfaceCount =>
    gives_bind (gives_many (gives_interface pool) interfaceCount) fun interfaces above =>
    gives_bind (gives_number 2) fun fieldCount small =>
    gives_bind (gives_many (gives_field pool name) fieldCount) fun fields declared =>
    gives_after fun methodCount =>
    gives_bind (gives_many (gives_method pool name) methodCount) fun methods listed =>
    gives_bind (gives_attributes (fun index header held => gives_classAttribute pool held header)
      (.inl rfl)) fun sourceIndex source => gives_after fun cursor => ?_
  have few : fields.length < 65536 := declared.1 ▸ small
  dsimp only
  split
  · refine gives_after fun _ => gives_after fun _ => gives_pure ?_
    exact ⟨checked.1, checked.2, ⟨nameIndex, named⟩, super.1, super.2, above.2, listed.2,
      declared.2, few, source⟩
  · refine gives_pure ?_
    exact ⟨checked.1, checked.2, ⟨nameIndex, named⟩, super.1, super.2, above.2, listed.2,
      declared.2, few, source⟩

theorem declaredClass_ofBytes {source : String} {bytes : List UInt8} {c : Class}
    (read : Class.ofBytes source bytes = .ok c) : DeclaredClass c := by
  unfold Class.ofBytes at read
  split at read
  · rename_i found later run
    cases read
    exact gives_wholeClass _ _ _ run
  · cases read

end Jvm.ClassFile.Reader
