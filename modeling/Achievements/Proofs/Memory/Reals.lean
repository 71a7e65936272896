import Achievements.Proofs.Ieee.Narrowing
import Achievements.Proofs.Plan.Writes

/-!
# Numbers in four bytes

What a floating-point operand reads after a double was written to it: `RealFormat.kept`, as a
function of the number that the double stands for. Numbers that the operand can hold are kept as
they are. The Microsoft format is no interchange format and is left out.
-/

set_option autoImplicit false

namespace Achievements

open Ieee

namespace RealFormat

/-- Where a number is found that was written in a format. -/
def kept : RealFormat → ℚ → WithBot (WithTop ℚ)
  | .single, number => Format.single.placed number
  | .doubleTop, number => ((Format.upper.truncated number : ℚ) : WithTop ℚ)
  | .microsoft, _ => ⊥

/-- An upper half that is a number makes a double whose lower half is zero. -/
theorem to_bits_of_double_top {pattern : ℕ} (small : pattern < 2 ^ 32)
    (number : datum (doubleTop.decode pattern) ≠ .nan) :
    (doubleTop.decode pattern).toBits.toNat = pattern * 2 ^ 32 := by
  have bound : pattern * 2 ^ 32 < 2 ^ 64 := by omega
  have decoded := datum_of_bits bound
  rw [decode, show 0x100000000 = 2 ^ 32 from rfl] at number ⊢
  exact to_bits_of_number bound (decoded ▸ number)

variable {format : RealFormat} (interchange : format ≠ .microsoft)

include interchange

theorem encode_lt (value : Float) : format.encode value < 2 ^ 32 := by
  cases format with
  | single => exact (narrow value).toNat_lt
  | doubleTop => exact Nat.div_lt_of_lt_mul value.toBits.toNat_lt
  | microsoft => exact absurd rfl interchange

/-- A finite double is read back as what the format keeps of it. -/
theorem place_of_written {value : Float} (finite : isFinite value = true) :
    (datum (format.decode (format.encode value))).place = format.kept (worth value) := by
  cases format with
  | single =>
      rw [decode, encode, UInt32.ofNat_toNat]
      exact place_narrow finite
  | doubleTop => exact place_upper finite
  | microsoft => exact absurd rfl interchange

/-- What some pattern of a format stands for is kept by it. -/
theorem kept_of_decode {pattern : ℕ} (small : pattern < 2 ^ 32) {number : ℚ}
    (place : (datum (format.decode pattern)).place = ((number : ℚ) : WithTop ℚ)) :
    format.kept number = ((number : ℚ) : WithTop ℚ) := by
  cases format with
  | single =>
      have same : (UInt32.ofNat pattern).toNat = pattern := UInt32.toNat_ofNat_of_lt' small
      rw [decode, place_widen, same] at place
      cases decoded : Format.single.decode pattern with
      | nan =>
          rw [decoded] at place
          cases place
      | infinite negative =>
          rw [decoded] at place
          cases negative <;> cases place
      | finite negative whole exponent =>
          obtain ⟨normal, finite, _⟩ := Format.splits_of_decode small decoded
          rw [decoded, Datum.place, WithBot.coe_inj, WithTop.coe_inj] at place
          rw [kept, ← place]
          exact Format.placed_of_normal (by decide) normal finite negative
  | doubleTop =>
      obtain ⟨finite, worth⟩ := finite_of_place place
      obtain ⟨negative, whole, exponent, known⟩ := Json.number_of_finite finite
      have same := to_bits_of_double_top small (by rw [known]; exact Datum.noConfusion)
      have upper := place_upper finite
      rw [same, Nat.mul_div_cancel _ (by decide), worth] at upper
      rw [kept, ← upper, ← place]
      rfl
  | microsoft => exact absurd rfl interchange

end RealFormat

namespace Ram

/-- A floating-point operand reads what its format made of the double that was written. -/
theorem read_real_after_write (ram : Ram) {access : MemoryAccess} {format : RealFormat}
    {order : ByteOrder} (encoding : access.encoding = .real format order)
    (interchange : format ≠ .microsoft) (fits : access.Fits ram.size) (value : Float) :
    access.encoding.readReal ((ram.write (ByteWrite.consecutive access.address
      (access.encoding.realBytes value))).contents access) =
        format.decode (format.encode value) := by
  have length : (access.encoding.realBytes value).length = access.encoding.byteLength := by
    rw [encoding]
    exact Encoding.length_digits _ _ _
  rw [ram.contents_write_consecutive access _ fits length, encoding, Encoding.readReal,
    Encoding.realBytes, Encoding.assemble_digits _ _ _ (RealFormat.encode_lt interchange value)]

end Ram

end Achievements
