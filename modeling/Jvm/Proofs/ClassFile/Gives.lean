/-
# Jvm.Proofs.ClassFile.Gives — what a reader answers with

A reader that checks what it reads answers only with what passed its checks: `Gives P reader`
says that every answer of `reader` satisfies `P`. The rules follow the ways in which readers are
put together.
-/
import Jvm.ClassFile.Reader
import Jvm.Proofs.BigEndian
import Jvm.Proofs.Sequence

namespace Jvm.ClassFile.Reader

set_option autoImplicit false

variable {α β : Type}

/-- Every answer of a reader has a property. -/
def Gives (P : α → Prop) (reader : Reader α) : Prop :=
  ∀ cursor v later, reader cursor = .ok v later → P v

section Gives

variable {P : α → Prop} {Q : β → Prop}

theorem Gives.mono {P' : α → Prop} {reader : Reader α} (gives : Gives P reader)
    (implied : ∀ v, P v → P' v) : Gives P' reader :=
  fun cursor v later run => implied v (gives cursor v later run)

theorem gives_any (reader : Reader α) : Gives (fun _ => True) reader := fun _ _ _ _ => trivial

theorem gives_pure {v : α} (holds : P v) : Gives P (pure v : Reader α) := by
  intro _ _ _ run
  cases run
  exact holds

theorem gives_throw (fault : Fault) : Gives P (throw fault : Reader α) := by
  intro _ _ _ run
  cases run

theorem gives_bind {first : Reader β} {next : β → Reader α} (one : Gives Q first)
    (rest : ∀ v, Q v → Gives P (next v)) : Gives P (first >>= next) := by
  intro cursor v later run
  obtain ⟨w, middle, start, run⟩ := bind_eq_ok.mp run
  exact rest w (one cursor w middle start) middle v later run

/-- The answer of the first reader does not matter. -/
theorem gives_after {first : Reader β} {next : β → Reader α} (rest : ∀ v, Gives P (next v)) :
    Gives P (first >>= next) :=
  gives_bind (gives_any first) fun v _ => rest v

theorem gives_many {reader : Reader α} (one : Gives P reader) (count : Nat) :
    Gives (fun answers => answers.length = count ∧ ∀ v ∈ answers, P v) (many reader count) := by
  induction count with
  | zero => exact gives_pure ⟨rfl, by simp⟩
  | succ count ih =>
      refine gives_bind one fun first holds => gives_bind ih fun others rest => ?_
      exact gives_pure ⟨by rw [List.length_cons, rest.1], by simpa using ⟨holds, rest.2⟩⟩

theorem gives_iterate {step : α → Reader α} (kept : ∀ v, P v → Gives P (step v)) (count : Nat)
    {start : α} (holds : P start) : Gives P (iterate step count start) := by
  induction count generalizing start with
  | zero => exact gives_pure holds
  | succ count ih => exact gives_bind (kept start holds) fun next held => ih held

theorem gives_attributes {pool : Pool} {step : α → AttributeHeader → Reader α} {start : α}
    (kept : ∀ v header, P v → Gives P (step v header)) (holds : P start) :
    Gives P (attributes pool step start) :=
  gives_after fun _ => gives_iterate (fun v held => gives_after fun header => kept v header held) _
    holds

end Gives

/-! ## Numbers -/

theorem gives_take (count : Nat) : Gives (fun bytes => bytes.length = count) (take count) := by
  refine gives_after fun cursor => ?_
  split
  · rename_i room
    refine gives_after fun _ => gives_pure ?_
    have enough : count ≤ cursor.rest.length := by
      simpa [Cursor.has, Cursor.remaining] using room
    rw [List.length_take, Int.toNat_natCast]
    omega
  · exact gives_throw _

theorem gives_number (width : Nat) : Gives (fun n => n < 256 ^ width) (number width) :=
  gives_bind (gives_take width) fun bytes length => gives_pure (length ▸ BigEndian.decode_lt bytes)

end Jvm.ClassFile.Reader
