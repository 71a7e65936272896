import Achievements.Proofs.Plan.Running

/-!
# The last write to a bit wins

Writes overlap where their addresses name the same cell and their masks share bits. A run on a console
whose frames leave memory alone makes the writes of its steps in order, so each bit is left as the last
write that covers it has it: `Plan.last_write_wins`.
-/

set_option autoImplicit false

namespace Achievements

namespace ByteWrite

/-- Does a write name a cell of memory of a given size and have a bit of it in its mask? -/
def covers (size cell bit : ℕ) (write : ByteWrite) : Bool :=
  write.address.toNat % size == cell % size && write.mask.toNat.testBit bit

/-- The last write that covers a bit of a cell. -/
def lastCovering? (size cell bit : ℕ) (writes : List ByteWrite) : Option ByteWrite :=
  (writes.filter (covers size cell bit)).getLast?

variable (size cell bit : ℕ) (write : ByteWrite) (writes : List ByteWrite)

theorem last_covering_cons : lastCovering? size cell bit (write :: writes) =
    if write.covers size cell bit then some ((lastCovering? size cell bit writes).getD write)
    else lastCovering? size cell bit writes := by
  rw [lastCovering?, List.filter_cons]
  split
  · exact List.getLast?_cons
  · rfl

end ByteWrite

namespace Ram

theorem test_bit_apply_write (ram : Ram) (nonempty : 0 < ram.size) (write : ByteWrite)
    (cell bit : ℕ) : ((Step.applyWrite ram write).peek cell).toNat.testBit bit =
      if write.covers ram.size cell bit then write.value.toNat.testBit bit
      else (ram.peek cell).toNat.testBit bit := by
  rw [ByteWrite.covers]
  by_cases same : write.cell ram.size = cell % ram.size
  · have named : (write.address.toNat % ram.size == cell % ram.size) = true := beq_iff_eq.mpr same
    rw [ram.peek_apply_write_same write nonempty same, ByteWrite.test_bit_apply, named,
      Bool.true_and]
  · have apart : (write.address.toNat % ram.size == cell % ram.size) = false :=
      beq_eq_false_iff_ne.mpr same
    rw [ram.peek_apply_write_other write same, apart, Bool.false_and, if_neg Bool.false_ne_true]

/-- After some writes a bit is that of the last value that was written to it, if there is one. -/
theorem test_bit_write (ram : Ram) (nonempty : 0 < ram.size) (writes : List ByteWrite)
    (cell bit : ℕ) : ((ram.write writes).peek cell).toNat.testBit bit =
      (ByteWrite.lastCovering? ram.size cell bit writes).elim
        ((ram.peek cell).toNat.testBit bit) fun write => write.value.toNat.testBit bit := by
  induction writes generalizing ram with
  | nil => rfl
  | cons first writes ih =>
      have size := ram.size_apply_write first
      have rest := ih (Step.applyWrite ram first) (by rwa [size])
      rw [size, ram.test_bit_apply_write nonempty] at rest
      rw [write_cons, rest, ByteWrite.last_covering_cons]
      cases ByteWrite.lastCovering? ram.size cell bit writes with
      | some later => split <;> rfl
      | none => split <;> rfl

end Ram

namespace Plan

/-- On a console whose frames leave memory alone, a run leaves each bit as the last write of its steps
that covers it has it, and as it was if there is none. The size of memory stays, and there is nothing
to write to in empty memory. -/
theorem last_write_wins {σ : Type} (stepper : FrameStepper σ)
    (quiet : ∀ ram state, (stepper ram state).1 = ram) (plan : Plan) (console : Console σ)
    (watcher : Option Watcher) :
    let after := (plan.execute stepper console watcher).console.ram
    let made := (plan.steps.take (plan.framesRun stepper console watcher)).flatMap (·.writes)
    after.size = console.ram.size ∧ (console.ram.size = 0 → after = console.ram) ∧
      ∀ cell < console.ram.size, ∀ bit, (after.peek cell).toNat.testBit bit =
        (ByteWrite.lastCovering? console.ram.size cell bit made).elim
          ((console.ram.peek cell).toNat.testBit bit) fun write => write.value.toNat.testBit bit := by
  intro after made
  have written : after = console.ram.write made := by
    have played := congrArg Console.ram (plan.console_of_execute stepper console watcher)
    exact played.trans (ram_of_quiet quiet _ console)
  have size : after.size = console.ram.size := by rw [written, Ram.size_write]
  refine ⟨size, fun empty => ?_, fun cell inside bit => ?_⟩
  · have before : console.ram.bytes = #[] := Array.eq_empty_of_size_eq_zero empty
    have behind : after.bytes = #[] := Array.eq_empty_of_size_eq_zero (size.trans empty)
    exact congrArg Ram.mk (behind.trans before.symm)
  · rw [written]
    exact console.ram.test_bit_write (Nat.zero_lt_of_lt inside) made cell bit

/-- Frames are counted, and memory is left alone. -/
def clock : FrameStepper ℕ :=
  fun ram frames => (ram, frames + 1)

/-- Three writes reach the second of four cells through different addresses, and one comes too late. -/
def overlapping : Plan where
  steps :=
    [{ comment := "fill", writes := [⟨5, 0x0E, 0x3C⟩, ⟨1, 0xF3, 0x07⟩] },
      { comment := "wrap", writes := [⟨9, 0xFE, 0x03⟩] },
      { comment := "late", writes := [{ address := 1, value := 0xFF }] }]

/-- It waits for what the second step makes of that cell. -/
def impatient : Watcher where
  engine := (Engine.create 60 (.readable (.zeroed 4))).load "Ten" "0xH0001=10"
  id := "ten"

theorem early_bits_are_kept : (∀ ram frames, (clock ram frames).1 = ram) ∧
    overlapping.framesRun clock ⟨.zeroed 4, 0⟩ (some impatient) = 2 ∧
    let after := (overlapping.execute clock ⟨.zeroed 4, 0⟩ (some impatient)).console.ram
    (after.peek 1).toNat.testBit 0 = false ∧ (after.peek 1).toNat.testBit 1 = true ∧
      (after.peek 1).toNat.testBit 3 = true ∧ (after.peek 1).toNat.testBit 7 = false := by
  have frames : overlapping.framesRun clock ⟨.zeroed 4, 0⟩ (some impatient) = 2 := by
    decide +kernel
  have bits := (last_write_wins clock (fun _ _ => rfl) overlapping ⟨.zeroed 4, 0⟩
    (some impatient)).2.2 1 (by decide)
  rw [frames] at bits
  refine ⟨fun _ _ => rfl, frames, ?_, ?_, ?_, ?_⟩
  · exact (bits 0).trans (by decide)
  · exact (bits 1).trans (by decide)
  · exact (bits 3).trans (by decide)
  · exact (bits 7).trans (by decide)

end Plan

end Achievements
