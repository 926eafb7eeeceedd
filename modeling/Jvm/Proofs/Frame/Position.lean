/-
# Jvm.Proofs.Frame.Position — where a frame stands

A frame stands at a place in the code of its method or right behind it (`Frame.Placed`). The
instructions that need only their frame leave it at the same place, behind the instruction, or at
a target that they have checked (`LocalInstr.moves_run`), so a frame with room for the instruction
stays placed, also when the instruction halts.
-/
import Jvm.Proofs.Frame.Activation

namespace Jvm

set_option autoImplicit false

namespace Frame

/-- The position is in the code or right behind it. -/
def Placed (frame : Frame) : Prop := frame.bci ≤ frame.method.codeSize

/-- An instruction of the given length at the position ends in the code or with it. -/
def Holds (frame : Frame) (length : Nat) : Prop := frame.bci + length ≤ frame.method.codeSize

/-- The frame is at the same place of the same method. -/
structure Rests (frame later : Frame) : Prop where
  method : later.method = frame.method
  bci : later.bci = frame.bci

/-- Where a frame can be after an instruction of the given length. -/
structure Moves (length : Nat) (frame later : Frame) : Prop where
  method : later.method = frame.method
  bci : later.bci = frame.bci ∨ later.bci = frame.bci + length ∨
    later.bci < frame.method.codeSize

variable {frame later : Frame} {length : Nat}

theorem Holds.placed (holds : frame.Holds length) : frame.Placed :=
  Nat.le_trans (Nat.le_add_right _ _) holds

theorem Rests.holds (rests : frame.Rests later) (holds : frame.Holds length) :
    later.Holds length := by
  unfold Holds
  rw [rests.method, rests.bci]
  exact holds

theorem Rests.placed (rests : frame.Rests later) (placed : frame.Placed) : later.Placed := by
  unfold Placed
  rw [rests.method, rests.bci]
  exact placed

theorem Moves.placed (moves : frame.Moves length later) (holds : frame.Holds length) :
    later.Placed := by
  have within := holds.placed
  unfold Holds at holds
  unfold Placed at within ⊢
  rw [moves.method]
  rcases moves.bci with same | next | target
  · omega
  · omega
  · omega

end Frame

namespace FrameM

theorem admits_rests : Admits Frame.Rests where
  refl _ := ⟨rfl, rfl⟩
  trans _ _ _ one two := ⟨two.method.trans one.method, two.bci.trans one.bci⟩
  works _ _ _ _ := ⟨rfl, rfl⟩

theorem moves_jump (length : Nat) (offset : Int) : Leads (Frame.Moves length) (jump offset) := by
  intro frame
  rw [jump_eq]
  by_cases outside : (frame.bci : Int) + offset < 0 ∨
      (frame.method.codeSize : Int) ≤ frame.bci + offset
  · rw [if_pos outside]
    exact ⟨rfl, .inl rfl⟩
  · rw [if_neg outside]
    refine ⟨rfl, .inr (.inr ?_)⟩
    show (frame.bci + offset).toNat < frame.method.codeSize
    omega

end FrameM

/-- An instruction leaves its frame at the same place, behind itself, or in the code. -/
theorem LocalInstr.moves_run (instr : LocalInstr) (length : Nat) :
    FrameM.Leads (Frame.Moves length) (instr.run length) := by
  refine FrameM.admits_rests.run ?_ (FrameM.moves_jump length) ?_ ?_ instr
  · intro frame
    exact ⟨rfl, .inr (.inl rfl)⟩
  · intro frame later rests
    exact ⟨rests.method, .inl rests.bci⟩
  · intro frame middle later rests moves
    refine ⟨moves.method.trans rests.method, ?_⟩
    rw [← rests.bci, ← rests.method]
    exact moves.bci

end Jvm
