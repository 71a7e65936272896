import Achievements.Proofs.Memory.Microsoft
import Achievements.Proofs.Memory.Reals

/-!
# Numbers that are written back

A number that was read from four bytes is written as the bytes it was read from:
`Encoding.reals_are_written_back`. The patterns of no number are left out, as a format has many of
them, and so are those of the Microsoft format without an exponent, all of which are zero.
-/

set_option autoImplicit false

namespace Achievements

open Ieee

namespace ByteOrder

/-- The most significant of some bytes. -/
def leading : ByteOrder → List UInt8 → UInt8
  | .littleEndian, bytes => bytes.getLastD 0
  | .bigEndian, bytes => bytes.headD 0

end ByteOrder

theorem Microsoft.encode_decode {pattern : ℕ} (small : pattern < 2 ^ 32)
    (present : pattern / 0x1000000 ≠ 0) : encode (decode pattern) = pattern := by
  simp only [encode, datum_of_decode small present]
  exact encode_from_decode small present _

/-- The pattern of a number that has only one comes back from it. -/
theorem RealFormat.encode_decode {format : RealFormat} {pattern : ℕ} (small : pattern < 2 ^ 32)
    (number : datum (format.decode pattern) ≠ .nan)
    (present : format = .microsoft → pattern / 0x1000000 ≠ 0) :
    format.encode (format.decode pattern) = pattern := by
  cases format with
  | single =>
      have same : (UInt32.ofNat pattern).toNat = pattern := UInt32.toNat_ofNat_of_lt' small
      have known : Format.single.decode (UInt32.ofNat pattern).toNat ≠ .nan := by
        intro unknown
        apply number
        rw [decode, widen, unknown]
        decide
      rw [encode, decode, narrow_widen known, same]
  | doubleTop =>
      rw [encode, to_bits_of_double_top small number]
      exact Nat.mul_div_cancel _ (by decide)
  | microsoft => exact Microsoft.encode_decode small (present rfl)

namespace Encoding

theorem assemble_leading {order : ByteOrder} {bytes : List UInt8} (length : bytes.length = 4) :
    assemble order bytes / 0x1000000 = (order.leading bytes).toNat := by
  match bytes, length with
  | [first, second, third, fourth], _ =>
      have bounds := And.intro first.toNat_lt <| And.intro second.toNat_lt <|
        And.intro third.toNat_lt fourth.toNat_lt
      cases order with
      | littleEndian =>
          change (first.toNat + 256 * (second.toNat + 256 * (third.toNat + 256 *
            (fourth.toNat + 256 * 0)))) / 0x1000000 = fourth.toNat
          omega
      | bigEndian =>
          change (256 * (256 * (256 * (256 * 0 + first.toNat) + second.toNat) + third.toNat) +
            fourth.toNat) / 0x1000000 = first.toNat
          omega

/-- Four bytes that are a number, with an exponent in the Microsoft format, are written back when the
number that was read from them is written, and memory that held them is as it was. In the Microsoft
format this needs no exact logarithm: off by at most one, the loops on doubles end all the same, with
the pattern of the bytes. -/
theorem reals_are_written_back {format : RealFormat} {order : ByteOrder} {bytes : List UInt8}
    (length : bytes.length = 4)
    (number : datum ((Encoding.real format order).readReal bytes) ≠ .nan)
    (present : format = .microsoft → order.leading bytes ≠ 0) :
    let encoding := Encoding.real format order
    let value := encoding.readReal bytes
    encoding.realBytes value = bytes ∧
      (∀ (buffer : Array UInt8) (place : Int64), History.bytesAt buffer place 4 = bytes →
        History.realIn buffer encoding place = value) ∧
      (∀ (ram : Ram) (address : UInt32), ram.contents { encoding, address } = bytes →
        address.toNat + 4 ≤ 4294967296 →
          ram.write (ByteWrite.consecutive address (encoding.realBytes value)) = ram) ∧
      (format = .microsoft → ∀ log : ℤ, |log - Int.log 2 (|worth value|)| ≤ 1 →
        digits order 4 (Microsoft.encodeFrom (log + 1) value) = bytes ∧
          ∀ pattern, Microsoft.Encodes (log + 1) value pattern ↔
            pattern = Microsoft.encodeFrom (log + 1) value) := by
  intro encoding value
  have small : assemble order bytes < 2 ^ 32 := by
    have bound := assemble_lt order bytes
    rwa [length] at bound
  have exponent : format = .microsoft → assemble order bytes / 0x1000000 ≠ 0 := by
    intro microsoft
    rw [assemble_leading length]
    exact UInt8.toNat_inj.not.mpr (present microsoft)
  have restored := digits_assemble order bytes
  rw [length] at restored
  have decoded := RealFormat.encode_decode small number exponent
  have written : encoding.realBytes value = bytes :=
    (congrArg (digits order 4) decoded).trans restored
  refine ⟨written, fun buffer place held => congrArg encoding.readReal held,
    fun ram address held within => ?_, fun microsoft log near => ?_⟩
  · rw [written, ← held]
    exact ram.write_contents { encoding, address } within
  · subst microsoft
    have same := Microsoft.encode_from_decode small (exponent rfl) (log + 1)
    have run := Microsoft.encodes_decode small (exponent rfl) near
    refine ⟨?_, fun pattern => ⟨fun other => ?_, fun other => ?_⟩⟩
    · exact (congrArg _ same).trans restored
    · exact (Microsoft.EncodesBy.unique other run).trans same.symm
    · rw [other]
      exact same ▸ run

/-- The number -5, its exponent byte first. -/
theorem minus_five_is_written_back :
    let encoding := Encoding.real .microsoft .bigEndian
    let bytes : List UInt8 := [0x83, 0xA0, 0, 0]
    encoding.realBytes (encoding.readReal bytes) = bytes ∧
      ∀ log : ℤ, |log - Int.log 2 (|worth (encoding.readReal bytes)|)| ≤ 1 →
        digits .bigEndian 4 (Microsoft.encodeFrom (log + 1) (encoding.readReal bytes)) = bytes := by
  intro encoding bytes
  have number : datum (encoding.readReal bytes) ≠ .nan := by decide
  have back := reals_are_written_back rfl number (fun _ => by decide)
  exact ⟨back.1, fun log near => (back.2.2.2 rfl log near).1⟩

end Encoding

end Achievements
