import Achievements.Proofs.Formula.RoundTrip

/-!
# Constants that survive their text

The constants of a formula are written and read once more. Each of them comes back at its place, with
the same value, exactly if it has a literal; the others come back as zero. Formulas do hold constants of
the other kind, since digits before a point may be as many as one likes, and the smallest integer can
follow a modifier, where it is read sign and all.
-/

set_option autoImplicit false

namespace Achievements

theorem Number.settled_eq_iff (value : Number) : value.settled = value ↔ value.HasLiteral := by
  rw [← has_literal_iff, settled]
  split
  · rename_i literal
    exact iff_of_true rfl literal
  · rename_i noLiteral
    apply iff_of_false _ noLiteral
    rintro rfl
    exact noLiteral rfl

theorem Number.settled_of_no_literal {value : Number} (noLiteral : ¬value.HasLiteral) :
    value.settled = .int 0 := by
  rw [← has_literal_iff] at noLiteral
  exact if_neg noLiteral

/-- A constant is the same in both operands exactly if it has a literal, and otherwise it is zero in
the second one. -/
def Operand.RereadAs (operand again : Operand) : Prop :=
  ∀ value, operand = .constant value →
    (again = .constant value ↔ value.HasLiteral) ∧ (¬value.HasLiteral → again = .constant (.int 0))

theorem Operand.reread_as_settled (operand : Operand) : operand.RereadAs operand.settled := by
  rintro value rfl
  constructor
  · rw [settled, Operand.constant.injEq]
    exact value.settled_eq_iff
  · intro noLiteral
    rw [settled, Number.settled_of_no_literal noLiteral]

/-- Clauses that differ at most in their operands, whose constants are as said above. -/
structure Clause.RereadAs (clause again : Clause) : Prop where
  flag : again.flag = clause.flag
  left : clause.left.RereadAs again.left
  comparison : again.comparison = clause.comparison
  right : clause.right.RereadAs again.right
  target : again.target = clause.target

theorem Clause.reread_as_settled (clause : Clause) : clause.RereadAs clause.settled where
  flag := rfl
  left := clause.left.reread_as_settled
  comparison := rfl
  right := clause.right.reread_as_settled
  target := rfl

namespace Formula

/-- The constants of a formula are read back from its canonical text at the same clause and side, but for
those without a literal. -/
theorem constants_are_read_back (framesPerSecond : UInt32) (text : String) :
    List.Forall₂ Clause.RereadAs (read framesPerSecond text)
      (read framesPerSecond (write (read framesPerSecond text))) := by
  rw [read_write, List.forall₂_map_right_iff, List.forall₂_same]
  intro clause _
  exact clause.reread_as_settled

/-- Ten to the sixteenth power, which is written with an exponent. -/
def large : String := "0xH1=10000000000000000.0"

/-- The smallest integer, after a modifier. -/
def least : String := "d-9223372036854775808=0xH1"

/-- Both constants are zero in the formula that is read back. -/
theorem constants_without_literal_are_lost :
    (∃ value, (read 60 large).map Clause.right = [.constant (.real value)] ∧
      Ieee.isFinite value = true ∧
      (read 60 (write (read 60 large))).map Clause.right = [.constant (.int 0)]) ∧
    (read 60 least).map Clause.left = [.constant (.int Int64.minValue)] ∧
    (read 60 (write (read 60 least))).map Clause.left = [.constant (.int 0)] := by
  have ofLarge : read 60 large =
      [{ flag := .plain, left := .memory { encoding := .byte, address := 1 }, comparison := .eq
         right := .constant (.real (Decimal.toDouble false ⟨100000000000000000, -1⟩)) }] :=
    read_of_last (show tokens large.toList = [large.toList] by decide)
      (by with_unfolding_all rfl)
  have ofLeast : read 60 least =
      [{ flag := .plain, left := .constant (.int Int64.minValue), comparison := .eq
         right := .memory { encoding := .byte, address := 1 } }] :=
    read_of_last (show tokens least.toList = [least.toList] by decide)
      (by with_unfolding_all rfl)
  have exponent : ¬(Number.real (Decimal.toDouble false ⟨100000000000000000, -1⟩)).hasLiteral := by
    decide
  refine ⟨⟨_, congrArg _ ofLarge, by decide, ?_⟩, congrArg _ ofLeast, ?_⟩
  · rw [read_write, ofLarge]
    simp [Clause.settled, Operand.settled, Number.settled, exponent]
  · rw [read_write, ofLeast]
    rfl

end Formula

end Achievements
