/-
# Jvm.Proofs.Sequence — one action after another

Actions on a machine or a frame, readers of class files and lookups in a pool all answer or stop,
and leave a state in either case. What two of them in a row come to is decided by the first one: if
it answers, the second one goes on from the state that it leaves; if it stops, nothing follows.
-/

namespace Jvm

set_option autoImplicit false

variable {ε σ α β : Type} {first : EStateM ε σ α} {next : α → EStateM ε σ β} {state later : σ}

theorem bind_of_ok {v : α} (run : first state = .ok v later) :
    (first >>= next) state = next v later := by
  show EStateM.bind first next state = _
  simp only [EStateM.bind, run]

theorem bind_of_error {stopped : ε} (run : first state = .error stopped later) :
    (first >>= next) state = .error stopped later := by
  show EStateM.bind first next state = _
  simp only [EStateM.bind, run]

/-- Another action that comes to the same end, from another state. -/
theorem bind_of_eq {other : EStateM ε σ α} (same : first state = other later) :
    (first >>= next) state = (other >>= next) later := by
  show EStateM.bind first next state = EStateM.bind other next later
  simp only [EStateM.bind, same]

/-- The state is answered and stays as it is. -/
theorem bind_get {next : σ → EStateM ε σ β} :
    ((get : EStateM ε σ σ) >>= next) state = next state state := rfl

theorem bind_eq_ok {w : β} {last : σ} :
    (first >>= next) state = .ok w last ↔
      ∃ v middle, first state = .ok v middle ∧ next v middle = .ok w last := by
  cases run : first state with
  | ok v middle =>
      rw [bind_of_ok run]
      refine ⟨fun rest => ⟨v, middle, rfl, rest⟩, ?_⟩
      rintro ⟨_, _, ⟨⟩, rest⟩
      exact rest
  | error stopped middle =>
      rw [bind_of_error run]
      exact iff_of_false nofun fun ⟨_, _, impossible, _⟩ => by cases impossible

end Jvm
