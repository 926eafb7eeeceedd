/-
# Jvm.Proofs.Options.Size — the sizes that options accept

`SizeText` is all that is read as a size: digits with a suffix, after blanks and a sign. The
conversion of the number stops at the greatest 64-bit word and counts a negative number down from
the top (`SizeText.stored`), and the unit multiplies it in 64 bits. A size in plain digits that fits
is therefore exact, and a text that is not a size gives zero, but a size with blanks or a sign, or
one that does not fit, is not refused: `parseSize_as_asked_unless_wrapped` says what it gives, and
that these are the only texts that go wrong.
-/
import Mathlib.Data.Int.ModEq
import Mathlib.Data.List.TakeWhile
import Jvm.Options

namespace Jvm.Options

set_option autoImplicit false

/-! ## What is read as a size -/

/-- The number of bytes that a suffix stands for. -/
def unit? : List Char → Option Nat
  | [] => some 1
  | ['k'] | ['K'] => some (2 ^ 10)
  | ['m'] | ['M'] => some (2 ^ 20)
  | ['g'] | ['G'] => some (2 ^ 30)
  | _ => none

/-- The ways to write a sign, and whether the number is negative then. -/
def signs : List (List Char × Bool) := [([], false), (['+'], false), (['-'], true)]

/-- A text as a number with a unit. -/
@[ext]
structure SizeText (text : String) where
  blanks : List Char
  sign : List Char
  negative : Bool
  digits : List Char
  suffix : List Char
  unit : Nat
  blank : ∀ c ∈ blanks, Numeral.isBlank c = true
  signed : (sign, negative) ∈ signs
  decimal : ∀ c ∈ digits, c.isDigit = true
  counted : digits ≠ []
  suffixed : unit? suffix = some unit
  spelled : text.toList = blanks ++ (sign ++ (digits ++ suffix))

namespace SizeText

variable {text : String}

def number (size : SizeText text) : Nat := Nat.ofDigitChars 10 size.digits 0

/-- A decimal number with a suffix and nothing else, whose bytes can be counted in 64 bits. -/
def Exact (size : SizeText text) : Prop :=
  size.blanks = [] ∧ size.sign = [] ∧ size.number * size.unit < 2 ^ 64

/-- The number as it is converted. -/
def stored (size : SizeText text) : Int :=
  if 2 ^ 64 ≤ size.number then 2 ^ 64 - 1
  else if size.negative then -size.number
  else size.number

end SizeText

/-- The number of bytes that a text asks for: none, unless it is a size that is exact. -/
def Asks (text : String) (bytes : Nat) : Prop :=
  (∃ size : SizeText text, size.Exact ∧ bytes = size.number * size.unit) ∨
    (¬ ∃ size : SizeText text, size.Exact) ∧ bytes = 0

/-! ## One way to read a text -/

/-- A run of characters up to the first that is not of its kind. -/
theorem span_of_stop {p : Char → Bool} {run rest : List Char} (all : ∀ c ∈ run, p c = true)
    (stop : ∀ c, rest.head? = some c → p c = false) :
    (run ++ rest).takeWhile p = run ∧ (run ++ rest).dropWhile p = rest := by
  rw [List.takeWhile_append_of_pos all, List.dropWhile_append_of_pos all]
  cases rest with
  | nil => simp
  | cons c rest => simp [stop c rfl]

theorem isDigit_eq_false_of_isBlank {c : Char} (blank : Numeral.isBlank c = true) :
    c.isDigit = false := by
  simp only [Numeral.isBlank, Bool.or_eq_true, beq_iff_eq] at blank
  rcases blank with ((((rfl | rfl) | rfl) | rfl) | rfl) | rfl <;> decide

theorem isDigit_eq_false_of_isSign {c : Char} (sign : Numeral.isSign c = true) :
    c.isDigit = false := by
  simp only [Numeral.isSign, Bool.or_eq_true, beq_iff_eq] at sign
  rcases sign with rfl | rfl <;> decide

theorem isSign_eq_false_of_isBlank {c : Char} (blank : Numeral.isBlank c = true) :
    Numeral.isSign c = false := by
  simp only [Numeral.isBlank, Bool.or_eq_true, beq_iff_eq] at blank
  rcases blank with ((((rfl | rfl) | rfl) | rfl) | rfl) | rfl <;> decide

theorem isSign_of_mem_signs {sign : List Char} {negative : Bool}
    (listed : (sign, negative) ∈ signs) : ∀ c ∈ sign, Numeral.isSign c = true := by
  have all : signs.all (fun row => row.1.all Numeral.isSign) = true := by decide
  exact List.all_eq_true.mp (List.all_eq_true.mp all _ listed)

theorem isDigit_eq_false_of_unit? {suffix : List Char} {unit : Nat}
    (known : unit? suffix = some unit) (c : Char) (head : suffix.head? = some c) :
    c.isDigit = false := by
  unfold unit? at known
  split at known <;> cases known <;> cases head <;> decide

namespace SizeText

variable {text : String} (size : SizeText text)

theorem head?_digits (rest : List Char) (c : Char)
    (head : (size.digits ++ rest).head? = some c) : c.isDigit = true := by
  obtain ⟨d, others, written⟩ := List.exists_cons_of_ne_nil size.counted
  rw [written, List.cons_append, List.head?_cons] at head
  obtain rfl := Option.some.inj head
  exact size.decimal _ (written ▸ List.mem_cons_self)

theorem span_suffix :
    (size.digits ++ size.suffix).takeWhile Char.isDigit = size.digits ∧
      (size.digits ++ size.suffix).dropWhile Char.isDigit = size.suffix :=
  span_of_stop size.decimal (isDigit_eq_false_of_unit? size.suffixed)

theorem span_digits :
    (size.sign ++ (size.digits ++ size.suffix)).takeWhile Numeral.isSign = size.sign ∧
      (size.sign ++ (size.digits ++ size.suffix)).dropWhile Numeral.isSign =
        size.digits ++ size.suffix := by
  refine span_of_stop (isSign_of_mem_signs size.signed) fun c head => ?_
  have digit := size.head?_digits _ c head
  by_contra sign
  rw [isDigit_eq_false_of_isSign (eq_true_of_ne_false sign)] at digit
  cases digit

theorem span_blanks :
    text.toList.takeWhile Numeral.isBlank = size.blanks ∧
      text.toList.dropWhile Numeral.isBlank = size.sign ++ (size.digits ++ size.suffix) := by
  rw [size.spelled]
  refine span_of_stop size.blank fun c head => ?_
  by_contra blank
  replace blank := eq_true_of_ne_false blank
  cases written : size.sign with
  | nil =>
      rw [written, List.nil_append] at head
      have digit := size.head?_digits _ c head
      rw [isDigit_eq_false_of_isBlank blank] at digit
      cases digit
  | cons s others =>
      rw [written, List.cons_append, List.head?_cons] at head
      obtain rfl := Option.some.inj head
      have sign := isSign_of_mem_signs size.signed s (written ▸ List.mem_cons_self)
      rw [isSign_eq_false_of_isBlank blank] at sign
      cases sign

theorem negative_eq : size.negative = (size.sign == ['-']) := by
  have all : ∀ row ∈ signs, row.2 = (row.1 == ['-']) := by decide
  exact all _ size.signed

/-- A text is a size in one way at most. -/
instance : Subsingleton (SizeText text) := by
  refine ⟨fun one other => ?_⟩
  have blanks := one.span_blanks.1.symm.trans other.span_blanks.1
  have afterBlanks := one.span_blanks.2.symm.trans other.span_blanks.2
  have sign : one.sign = other.sign := by
    rw [← one.span_digits.1, afterBlanks, other.span_digits.1]
  have afterSign := one.span_digits.2
  rw [afterBlanks, other.span_digits.2] at afterSign
  have digits : one.digits = other.digits := by
    rw [← one.span_suffix.1, ← afterSign, other.span_suffix.1]
  have suffix : one.suffix = other.suffix := by
    rw [← one.span_suffix.2, ← afterSign, other.span_suffix.2]
  have unit := one.suffixed
  rw [suffix, other.suffixed] at unit
  have negative : one.negative = other.negative := by
    rw [one.negative_eq, other.negative_eq, sign]
  exact SizeText.ext blanks sign negative digits suffix (Option.some.inj unit).symm

/-! ## The conversion of the number -/

theorem decimal_eq (digits : List Char) :
    Numeral.decimal digits = Nat.ofDigitChars 10 digits 0 := by
  unfold Numeral.decimal
  rw [Nat.ofDigitChars_eq_foldl]
  congr
  funext value digit
  rw [Nat.mul_comm]

/-- The conversion takes the number and leaves the suffix. -/
theorem read?_eq :
    Numeral.read? text.toList = some ⟨size.negative, size.number, size.suffix⟩ := by
  have taken := size.span_suffix
  obtain ⟨d, ds, written⟩ := List.exists_cons_of_ne_nil size.counted
  have digit : d.isDigit = true := size.decimal d (written ▸ List.mem_cons_self)
  have notPlus : d ≠ '+' := by
    rintro rfl
    cases digit
  have notMinus : d ≠ '-' := by
    rintro rfl
    cases digit
  have cases := size.signed
  simp only [signs, List.mem_cons, Prod.mk.injEq, List.not_mem_nil, or_false] at cases
  rw [number, ← decimal_eq]
  unfold Numeral.read?
  rw [size.span_blanks.2]
  rw [written] at taken ⊢
  rw [List.cons_append] at taken
  obtain ⟨sign, negative⟩ | ⟨sign, negative⟩ | ⟨sign, negative⟩ := cases <;>
    simp [sign, negative, notPlus, notMinus, taken, Numeral.isSign]

end SizeText

theorem sizeUnit_of_unit? {suffix : List Char} {unit : Nat} (known : unit? suffix = some unit) :
    sizeUnit suffix = (unit.toUInt64, []) := by
  unfold unit? at known
  split at known <;> cases known <;> rfl

theorem unit?_range {suffix : List Char} {unit : Nat} (known : unit? suffix = some unit) :
    0 < unit ∧ unit < 2 ^ 64 := by
  unfold unit? at known
  split at known <;> cases known <;> decide

theorem exists_unit? {suffix : List Char} (whole : (sizeUnit suffix).2 = []) :
    ∃ unit, unit? suffix = some unit := by
  cases suffix with
  | nil => exact ⟨1, rfl⟩
  | cons c rest =>
      rw [sizeUnit] at whole
      split at whole
      · rename_i kilo
        obtain rfl : rest = [] := whole
        rcases kilo with rfl | rfl <;> exact ⟨_, rfl⟩
      · split at whole
        · rename_i mega
          obtain rfl : rest = [] := whole
          rcases mega with rfl | rfl <;> exact ⟨_, rfl⟩
        · split at whole
          · rename_i giga
            obtain rfl : rest = [] := whole
            rcases giga with rfl | rfl <;> exact ⟨_, rfl⟩
          · cases whole

theorem exists_sizeText_of_parts {text : String} {sign unsigned : List Char} {negative : Bool}
    {unit : Nat} (spelled : text.toList.dropWhile Numeral.isBlank = sign ++ unsigned)
    (signed : (sign, negative) ∈ signs) (counted : unsigned.takeWhile Char.isDigit ≠ [])
    (suffixed : unit? (unsigned.dropWhile Char.isDigit) = some unit) : Nonempty (SizeText text) :=
  ⟨{  blanks := text.toList.takeWhile Numeral.isBlank
      sign := sign
      negative := negative
      digits := unsigned.takeWhile Char.isDigit
      suffix := unsigned.dropWhile Char.isDigit
      unit := unit
      blank := fun _ => List.mem_takeWhile_imp
      signed := signed
      decimal := fun _ => List.mem_takeWhile_imp
      counted := counted
      suffixed := suffixed
      spelled := by
        rw [List.takeWhile_append_dropWhile, ← spelled, List.takeWhile_append_dropWhile] }⟩

/-- Whatever the conversion takes is the number of a size, if a suffix follows it. -/
theorem exists_sizeText {text : String} {numeral : Numeral} {unit : Nat}
    (read : Numeral.read? text.toList = some numeral) (known : unit? numeral.rest = some unit) :
    Nonempty (SizeText text) := by
  unfold Numeral.read? at read
  cases unpadded : text.toList.dropWhile Numeral.isBlank with
  | nil => simp [unpadded] at read
  | cons c rest =>
      rw [unpadded] at read
      by_cases sign : Numeral.isSign c = true
      · simp only [sign, if_true, Option.ite_none_left_eq_some, Option.some.injEq] at read
        obtain ⟨counted, rfl⟩ := read
        have signed : ([c], c == '-') ∈ signs := by
          simp only [Numeral.isSign, Bool.or_eq_true, beq_iff_eq] at sign
          rcases sign with rfl | rfl <;> decide
        exact exists_sizeText_of_parts unpadded signed (by simpa using counted) known
      · simp only [sign, Option.ite_none_left_eq_some, Option.some.injEq] at read
        obtain ⟨counted, rfl⟩ := read
        have signed : ([], false) ∈ signs := by decide
        exact exists_sizeText_of_parts unpadded signed (by simpa using counted) known

/-- The unsigned word that the conversion gives. -/
theorem toNat_word {text : String} (size : SizeText text) :
    ((Numeral.word ⟨size.negative, size.number, size.suffix⟩).toNat : Int) =
      size.stored % 2 ^ 64 := by
  unfold Numeral.word SizeText.stored
  by_cases large : 2 ^ 64 ≤ size.number
  · rw [if_pos (by simp only; omega), if_pos large]
    rfl
  · rw [if_neg (by simp only; omega), if_neg large]
    have kept : size.number.toUInt64.toNat = size.number :=
      UInt64.toNat_ofNat_of_lt' (by simp only [UInt64.size]; omega)
    cases size.negative with
    | false =>
        show ((size.number.toUInt64.toNat : Nat) : Int) = (size.number : Int) % 2 ^ 64
        rw [kept]
        omega
    | true =>
        show (((-size.number.toUInt64).toNat : Nat) : Int) = -(size.number : Int) % 2 ^ 64
        rw [UInt64.toNat_neg, kept, UInt64.size]
        omega

/-! ## The size -/

theorem toNat_parseSize {text : String} (size : SizeText text) :
    ((parseSize text).toNat : Int) = size.stored * size.unit % 2 ^ 64 := by
  have unit : size.unit.toUInt64.toNat = size.unit :=
    UInt64.toNat_ofNat_of_lt' (unit?_range size.suffixed).2
  have parsed : parseSize text =
      Numeral.word ⟨size.negative, size.number, size.suffix⟩ * size.unit.toUInt64 := by
    unfold parseSize
    rw [size.read?_eq]
    simp only [sizeUnit_of_unit? size.suffixed]
    rfl
  rw [parsed, UInt64.toNat_mul, unit, Int.natCast_emod, Int.natCast_mul, toNat_word]
  exact (Int.mod_modEq _ _).mul_right _

theorem parseSize_eq_zero {text : String} (none : IsEmpty (SizeText text)) :
    parseSize text = 0 := by
  unfold parseSize
  split
  · rfl
  · rename_i numeral read
    split
    rename_i unit rest taken
    rw [if_neg]
    intro whole
    obtain rfl : rest = [] := by simpa using whole
    obtain ⟨unit, known⟩ := exists_unit? (congrArg Prod.snd taken)
    exact none.elim (exists_sizeText read known).some

theorem SizeText.Exact.toNat_parseSize {text : String} {size : SizeText text}
    (exact : size.Exact) : (parseSize text).toNat = size.number * size.unit := by
  obtain ⟨-, unsigned, fits⟩ := exact
  have positive : size.negative = false := by rw [size.negative_eq, unsigned]; rfl
  have number : size.number < 2 ^ 64 :=
    Nat.lt_of_le_of_lt (Nat.le_mul_of_pos_right _ (unit?_range size.suffixed).1) fits
  have stored : size.stored = size.number := by
    rw [SizeText.stored, if_neg (Nat.not_le.mpr number), positive]
    rfl
  have bytes := Options.toNat_parseSize size
  rw [stored, ← Int.natCast_mul] at bytes
  omega

theorem run_parseHeapSize (option text : String) (options : Options) :
    (parseHeapSize option text.toList).run options =
      if parseSize text = 0 then .error (.badHeapSize option) { options with heapSize := 0 }
      else .ok () { options with heapSize := parseSize text } := by
  unfold parseHeapSize
  rw [String.ofList_toList]
  by_cases zero : parseSize text = 0
  · simp only [zero, if_true, EStateM.run_bind, EStateM.run_modify, EStateM.run_throw]
  · simp only [zero, if_false, EStateM.run_bind, EStateM.run_modify, EStateM.run_pure]

/-- The heap size option is an error exactly if its size is zero. -/
theorem run_parse_heapSize (text : String) (rest : List String) (options : Options) :
    (parse (("-Xmx" ++ text) :: rest)).run options =
      if parseSize text = 0 then
        .error (.badHeapSize ("-Xmx" ++ text)) { options with heapSize := 0 }
      else (parse rest).run { options with heapSize := parseSize text } := by
  have notClasspath : isClasspathOption ("-Xmx" ++ text) = false := by
    have notShort : "-Xmx" ++ text ≠ "-cp" := fun same => by
      simpa using congrArg String.toList same
    have notLong : "-Xmx" ++ text ≠ "-classpath" := fun same => by
      simpa using congrArg String.toList same
    rw [isClasspathOption, beq_eq_false_iff_ne.mpr notShort, beq_eq_false_iff_ne.mpr notLong]
    rfl
  have value : after? "-Xmx" ("-Xmx" ++ text).toList = some text.toList := by
    rw [after?, String.toList_append,
      if_pos (List.isPrefixOf_iff_prefix.mpr (List.prefix_append _ _))]
    exact congrArg some (List.drop_left)
  have word : parseWord ("-Xmx" ++ text) = parseHeapSize ("-Xmx" ++ text) text.toList := by
    unfold parseWord
    rw [value]
  have inOrder : parse (("-Xmx" ++ text) :: rest) =
      (do parseWord ("-Xmx" ++ text); parse rest) := by
    cases rest <;> simp [parse, notClasspath]
  rw [inOrder, word, EStateM.run_bind, run_parseHeapSize]
  by_cases zero : parseSize text = 0
  · rw [if_pos zero, if_pos zero]
  · rw [if_neg zero, if_neg zero]

/-- A decimal number with a suffix is exact if it fits, and a text that is no size gives zero. A
size with blanks or a sign, or one that does not fit, is not refused but gives what 64-bit
arithmetic makes of it: such a text, unless that is zero by chance, is the only one that does not
give what it asks for. The heap size option refuses zero and takes all else. -/
theorem parseSize_as_asked_unless_wrapped (text : String) :
    (∀ size : SizeText text, size.Exact → (parseSize text).toNat = size.number * size.unit) ∧
    (IsEmpty (SizeText text) → parseSize text = 0) ∧
    (∀ size : SizeText text, ((parseSize text).toNat : Int) = size.stored * size.unit % 2 ^ 64) ∧
    (Asks text (parseSize text).toNat ↔
      ∀ size : SizeText text, size.Exact ∨ size.stored * size.unit % 2 ^ 64 = 0) ∧
    ∀ rest options, (parse (("-Xmx" ++ text) :: rest)).run options =
      if parseSize text = 0 then
        .error (.badHeapSize ("-Xmx" ++ text)) { options with heapSize := 0 }
      else (parse rest).run { options with heapSize := parseSize text } := by
  refine ⟨fun _ => SizeText.Exact.toNat_parseSize, parseSize_eq_zero, toNat_parseSize, ?_,
    run_parse_heapSize text⟩
  constructor
  · rintro (⟨found, exact, -⟩ | ⟨-, zero⟩) size
    · exact .inl (Subsingleton.elim found size ▸ exact)
    · right
      rw [← toNat_parseSize size, zero]
      rfl
  · intro wrong
    by_cases exact : ∃ size : SizeText text, size.Exact
    · obtain ⟨size, exact⟩ := exact
      exact .inl ⟨size, exact, exact.toNat_parseSize⟩
    · refine .inr ⟨exact, ?_⟩
      cases isEmpty_or_nonempty (SizeText text) with
      | inl none => rw [parseSize_eq_zero none]; rfl
      | inr some =>
          obtain ⟨size⟩ := some
          have zero := (wrong size).resolve_left fun found => exact ⟨size, found⟩
          rw [← toNat_parseSize size] at zero
          exact_mod_cast zero

def SizeText.kilobytes : SizeText "512k" where
  blanks := []
  sign := []
  negative := false
  digits := ['5', '1', '2']
  suffix := ['k']
  unit := 1024
  blank := nofun
  signed := by decide
  decimal := List.all_eq_true.mp (by decide)
  counted := List.cons_ne_nil _ _
  suffixed := rfl
  spelled := rfl

def SizeText.minusOne : SizeText "-1" where
  blanks := []
  sign := ['-']
  negative := true
  digits := ['1']
  suffix := []
  unit := 1
  blank := nofun
  signed := by decide
  decimal := List.all_eq_true.mp (by decide)
  counted := List.cons_ne_nil _ _
  suffixed := rfl
  spelled := rfl

/-- The greatest heap of all is what a heap of minus one byte becomes. -/
theorem parseSize_as_asked_unless_wrapped_minusOne :
    (parseSize "512k").toNat = 524288 ∧ (parseSize "-1").toNat = 2 ^ 64 - 1 ∧
    ¬ Asks "-1" (parseSize "-1").toNat ∧ parseSize "" = 0 := by
  have none : IsEmpty (SizeText "") := by
    refine ⟨fun size => size.counted ?_⟩
    have empty := size.spelled.symm
    simp only [String.toList_empty, List.append_eq_nil_iff] at empty
    exact empty.2.2.1
  obtain ⟨-, -, wrapped, asked, -⟩ := parseSize_as_asked_unless_wrapped "-1"
  have minus : ((parseSize "-1").toNat : Int) = 2 ^ 64 - 1 := wrapped .minusOne
  have exact := (parseSize_as_asked_unless_wrapped "512k").1 .kilobytes ⟨rfl, rfl, by decide⟩
  refine ⟨exact, by omega, ?_, (parseSize_as_asked_unless_wrapped "").2.1 none⟩
  rw [asked]
  intro all
  rcases all .minusOne with ⟨-, signed, -⟩ | zero
  · cases signed
  · cases zero

end Jvm.Options
