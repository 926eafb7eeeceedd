/-
# Jvm.Proofs.ClassFile.Cursor — what a cursor gives, whatever is asked of it

A cursor is asked for numbers of four widths and told to skip bytes, in any order and by any count.
A request that is refused ends nothing: the fault is put aside and the next request goes on from the
cursor that was left. A cursor that starts on a buffer stays on it (`Cursor.On`), so a request is
decided by its size and by what remains (`CursorRequest.run_eq`), and what has been granted is a
beginning of the buffer: `serves_exactly` puts it together again from the numbers and from what was
skipped between them.
-/
import Jvm.Proofs.ClassFile.Reads

namespace Jvm.ClassFile

set_option autoImplicit false

/-- The bytes of a buffer from an offset on, at most so many. -/
def bytesAt (buffer : List UInt8) (offset count : Nat) : List UInt8 :=
  (buffer.drop offset).take count

/-- A number that a buffer has at an offset. It is no wider than its bytes, and they are what is
written of it, also by a machine that keeps the least significant byte of a word first. -/
structure HasNumber (buffer : List UInt8) (offset width number : Nat) : Prop where
  fits : number < 256 ^ width
  written : BigEndian.encode width number = bytesAt buffer offset width
  loaded : LittleEndian.swap width (LittleEndian.load (bytesAt buffer offset width)) = number
  stored : LittleEndian.store width (LittleEndian.swap width number) = bytesAt buffer offset width

theorem hasNumber_decode {buffer : List UInt8} {offset width : Nat}
    (room : offset + width ≤ buffer.length) :
    HasNumber buffer offset width (BigEndian.decode (bytesAt buffer offset width)) := by
  have length : (bytesAt buffer offset width).length = width := by
    rw [bytesAt, List.length_take, List.length_drop]
    omega
  have fits := BigEndian.decode_lt (bytesAt buffer offset width)
  have written := BigEndian.encode_decode (bytesAt buffer offset width)
  have loaded := LittleEndian.swap_load (bytesAt buffer offset width)
  rw [length] at fits written loaded
  exact ⟨fits, written, loaded, by rw [LittleEndian.store_swap, written]⟩

/-! ## One request -/

/-- What is asked of a cursor: a number of one, two, four or eight bytes, or to skip bytes. -/
inductive CursorRequest where
  | u1
  | u2
  | u4
  | u8
  | skip (count : Int)
  deriving DecidableEq, Repr

namespace CursorRequest

/-- The number of bytes that are asked for. -/
def size : CursorRequest → Int
  | .u1 => 1
  | .u2 => 2
  | .u4 => 4
  | .u8 => 8
  | .skip count => count

/-- A skip has no number for an answer. -/
def run : CursorRequest → Reader (Option Nat)
  | .u1 => return some (← Reader.u1)
  | .u2 => return some (← Reader.u2)
  | .u4 => return some (← Reader.u4)
  | .u8 => return some (← Reader.u8)
  | .skip count => do
      Reader.skip count
      return none

/-- The cursor that a request leaves, whether it is granted or refused. -/
def after (request : CursorRequest) (cursor : Cursor) : Cursor :=
  match request.run cursor with
  | .ok _ later => later
  | .error _ later => later

/-- The bytes that a request has taken: those of the number that it gave, or those that it skipped.
It took none if it was refused. -/
def taken (buffer : List UInt8) (request : CursorRequest) (cursor : Cursor) : List UInt8 :=
  match request.run cursor with
  | .ok (some number) _ => BigEndian.encode request.size.toNat number
  | .ok none _ => bytesAt buffer cursor.offset request.size.toNat
  | .error _ _ => []

/-- How a request is decided. It is granted if and only if its size is not negative and as much
remains; it then moves on by its size, and the answer of a read is the number at the cursor. If it
is refused, the class file is truncated and the cursor stays where it is. -/
structure Served (request : CursorRequest) (source : Option String) (buffer : List UInt8)
    (cursor : Cursor) : Prop where
  granted_iff : (∃ answer later, request.run cursor = .ok answer later) ↔
    0 ≤ request.size ∧ request.size ≤ cursor.remaining
  moves : ∀ {answer later}, request.run cursor = .ok answer later →
    (later.offset : Int) = cursor.offset + request.size
  silent_iff : ∀ {answer later}, request.run cursor = .ok answer later →
    (answer = none ↔ ∃ count, request = .skip count)
  reads : ∀ {number later}, request.run cursor = .ok (some number) later →
    HasNumber buffer cursor.offset request.size.toNat number
  refused : ∀ {fault later}, request.run cursor = .error fault later →
    fault.kind = .format ∧ later = cursor ∧
      fault = .of (.truncated (source.getD "<unknown>") request.size cursor.offset cursor.remaining)

/-- What a request makes of the bytes that it takes. -/
def answer? : CursorRequest → List UInt8 → Option Nat
  | .skip _, _ => none
  | _, bytes => some (BigEndian.decode bytes)

theorem answer?_eq_none_iff {request : CursorRequest} {bytes : List UInt8} :
    request.answer? bytes = none ↔ ∃ count, request = .skip count := by
  cases request <;> simp [answer?]

theorem answer?_eq_decode {request : CursorRequest} {bytes : List UInt8} {number : Nat}
    (numbered : request.answer? bytes = some number) : number = BigEndian.decode bytes := by
  cases request <;> cases numbered <;> rfl

/-- Every request takes its bytes and makes an answer of them. -/
theorem run_eq_take (request : CursorRequest) :
    request.run = do return request.answer? (← Reader.take request.size) := by
  cases request with
  | skip count =>
      simp only [run, Reader.skip, bind_assoc, pure_bind]
      rfl
  | _ =>
      simp only [run, Reader.u1, Reader.u2, Reader.u4, Reader.u8, Reader.number, bind_assoc,
        pure_bind]
      rfl

/-- Whether a request is granted depends on its size and on what remains. -/
theorem run_eq (request : CursorRequest) (cursor : Cursor) :
    request.run cursor =
      if cursor.has request.size then
        .ok (request.answer? (cursor.rest.take request.size.toNat))
          (cursor.advance request.size.toNat)
      else .error (.of (cursor.truncated request.size)) cursor := by
  have decided := Reader.take_eq request.size cursor
  rw [run_eq_take]
  split
  · rename_i room
    rw [if_pos room] at decided
    rw [bind_of_ok decided]
    rfl
  · rename_i short
    rw [if_neg short] at decided
    rw [bind_of_error decided]

theorem run_eq_ok {request : CursorRequest} {cursor later : Cursor} {answer : Option Nat} :
    request.run cursor = .ok answer later ↔
      (0 ≤ request.size ∧ request.size ≤ cursor.remaining) ∧
        answer = request.answer? (cursor.rest.take request.size.toNat) ∧
        later = cursor.advance request.size.toNat := by
  rw [run_eq, Cursor.remaining, ← Reader.has_eq_true]
  split
  · rename_i room
    refine ⟨fun run => ?_, ?_⟩
    · cases run
      exact ⟨room, rfl, rfl⟩
    · rintro ⟨-, rfl, rfl⟩
      rfl
  · rename_i short
    refine iff_of_false (fun run => ?_) fun granted => short granted.1
    cases run

theorem run_eq_error {request : CursorRequest} {cursor later : Cursor} {fault : Fault} :
    request.run cursor = .error fault later ↔
      ¬ (0 ≤ request.size ∧ request.size ≤ cursor.remaining) ∧
        fault = .of (cursor.truncated request.size) ∧ later = cursor := by
  rw [run_eq, Cursor.remaining, ← Reader.has_eq_true]
  split
  · rename_i room
    refine iff_of_false (fun run => ?_) fun refused => refused.1 room
    cases run
  · rename_i short
    refine ⟨fun run => ?_, ?_⟩
    · cases run
      exact ⟨short, rfl, rfl⟩
    · rintro ⟨-, rfl, rfl⟩
      rfl

end CursorRequest

/-! ## A cursor on a buffer -/

namespace Cursor

/-- What is still to be read is what the buffer has after the offset. -/
structure On (source : Option String) (buffer : List UInt8) (cursor : Cursor) : Prop where
  named : cursor.source = source
  within : cursor.offset ≤ buffer.length
  follows : cursor.rest = buffer.drop cursor.offset

variable {source : Option String} {buffer : List UInt8} {cursor : Cursor}

theorem on_start : On source buffer (start source buffer) := ⟨rfl, Nat.zero_le _, rfl⟩

namespace On

theorem offset_add_remaining (on : On source buffer cursor) :
    cursor.offset + cursor.remaining = buffer.length := by
  have within := on.within
  rw [remaining, on.follows, List.length_drop]
  omega

theorem advance (on : On source buffer cursor) {count : Nat} (room : count ≤ cursor.remaining) :
    On source buffer (cursor.advance count) where
  named := on.named
  within := by
    have whole := on.offset_add_remaining
    show cursor.offset + count ≤ buffer.length
    omega
  follows := by
    show cursor.rest.drop count = buffer.drop (cursor.offset + count)
    rw [on.follows, List.drop_drop]

theorem after (on : On source buffer cursor) (request : CursorRequest) :
    On source buffer (request.after cursor) := by
  unfold CursorRequest.after
  cases run : request.run cursor with
  | ok answer later =>
      obtain ⟨room, -, rfl⟩ := CursorRequest.run_eq_ok.mp run
      exact on.advance (by omega)
  | error fault later =>
      obtain ⟨-, -, rfl⟩ := CursorRequest.run_eq_error.mp run
      exact on

theorem served (on : On source buffer cursor) (request : CursorRequest) :
    request.Served source buffer cursor where
  granted_iff := by
    refine ⟨fun ⟨answer, later, run⟩ => (CursorRequest.run_eq_ok.mp run).1, fun room => ?_⟩
    exact ⟨_, _, CursorRequest.run_eq_ok.mpr ⟨room, rfl, rfl⟩⟩
  moves run := by
    obtain ⟨room, -, rfl⟩ := CursorRequest.run_eq_ok.mp run
    show ((cursor.offset + request.size.toNat : Nat) : Int) = _
    omega
  silent_iff run := by
    obtain ⟨-, rfl, -⟩ := CursorRequest.run_eq_ok.mp run
    exact CursorRequest.answer?_eq_none_iff
  reads run := by
    obtain ⟨room, answered, -⟩ := CursorRequest.run_eq_ok.mp run
    have whole := on.offset_add_remaining
    rw [CursorRequest.answer?_eq_decode answered.symm, on.follows]
    exact hasNumber_decode (by omega)
  refused run := by
    obtain ⟨-, rfl, rfl⟩ := CursorRequest.run_eq_error.mp run
    exact ⟨rfl, rfl, by rw [← on.named]; rfl⟩

/-- What a request takes is what lies between the offsets before and after it. -/
theorem take_append_taken (on : On source buffer cursor) (request : CursorRequest) :
    buffer.take cursor.offset ++ request.taken buffer cursor =
      buffer.take (request.after cursor).offset := by
  have served := on.served request
  unfold CursorRequest.taken CursorRequest.after
  cases run : request.run cursor with
  | ok answer later =>
      obtain ⟨room, -, rfl⟩ := CursorRequest.run_eq_ok.mp run
      have taken : buffer.take cursor.offset ++ bytesAt buffer cursor.offset request.size.toNat =
          buffer.take (cursor.advance request.size.toNat).offset := List.take_add.symm
      cases answer with
      | some number => simpa only [(served.reads run).written] using taken
      | none => exact taken
  | error fault later =>
      obtain ⟨-, -, rfl⟩ := CursorRequest.run_eq_error.mp run
      exact List.append_nil _

end On

/-! ## Many requests -/

/-- The cursor after some requests, each of which was granted or refused. -/
def afterAll (cursor : Cursor) : List CursorRequest → Cursor
  | [] => cursor
  | request :: others => (request.after cursor).afterAll others

/-- The bytes that some requests have taken, one after another. -/
def taken (buffer : List UInt8) (cursor : Cursor) : List CursorRequest → List UInt8
  | [] => []
  | request :: others =>
      request.taken buffer cursor ++ taken buffer (request.after cursor) others

theorem On.afterAll (on : On source buffer cursor) (requests : List CursorRequest) :
    On source buffer (cursor.afterAll requests) := by
  induction requests generalizing cursor with
  | nil => exact on
  | cons request others ih => exact ih (on.after request)

theorem On.take_append_taken_all (on : On source buffer cursor) (requests : List CursorRequest) :
    buffer.take cursor.offset ++ cursor.taken buffer requests =
      buffer.take (cursor.afterAll requests).offset := by
  induction requests generalizing cursor with
  | nil => exact List.append_nil _
  | cons request others ih =>
      -- The bytes up to the offset grow by what one request takes, and the others go on from there.
      rw [taken, ← List.append_assoc, on.take_append_taken, ih (on.after request)]
      rfl

/-- A cursor is exact. Whatever has been asked of it, its offset and what remains are the length of
the buffer; another request is granted if and only if so many bytes remain, and a refused one leaves
it where it was; and what has been granted so far, written back, is the buffer up to the offset. -/
theorem serves_exactly (source : Option String) (buffer : List UInt8)
    (requests : List CursorRequest) :
    ((start source buffer).afterAll requests).offset ≤ buffer.length ∧
      ((start source buffer).afterAll requests).offset +
        ((start source buffer).afterAll requests).remaining = buffer.length ∧
      (∀ request : CursorRequest,
        request.Served source buffer ((start source buffer).afterAll requests)) ∧
      (start source buffer).taken buffer requests =
        buffer.take ((start source buffer).afterAll requests).offset := by
  have started : On source buffer (start source buffer) := on_start
  have on := started.afterAll requests
  refine ⟨on.within, on.offset_add_remaining, on.served, ?_⟩
  have whole := started.take_append_taken_all requests
  rwa [show (start source buffer).offset = 0 from rfl, List.take_zero, List.nil_append] at whole

/-- A read that is too long and a skip backwards are refused; the requests after them go on. -/
example : (start none [0xca, 0xfe, 0xba, 0xbe, 0x01]).afterAll
    [.u2, .u8, .skip (-1), .skip 1, .u2] = ⟨none, 5, []⟩ := by decide

end Cursor

end Jvm.ClassFile
