import Achievements.Formula.Clause

/-!
# Writing formulas

The canonical text of a formula: every comparison in full, modifiers in a fixed order, addresses in
lower-case hexadecimal, and the number of hits in parentheses.
-/

set_option autoImplicit false

namespace Achievements.Formula

open Text

/-- Doubles in formulas: a whole number keeps its point, so that it is not read as an integer, and
very large or small numbers have an exponent. -/
def realLayout : Decimal.Layout where
  positional := fun magnitude => -4 ≤ magnitude && magnitude < 16
  wholeSuffix := ".0"
  exponentPlus := ""
  tie := .up
  nan := "NaN"
  infinity := "inf"

/-- The letters of modifiers. -/
def writeModifiers (modifiers : Modifiers) : List Char :=
  [(modifiers.delta, 'd'), (modifiers.prior, 'p'), (modifiers.bcd, 'b'), (modifiers.invert, '~')]
    |>.filterMap fun (present, letter) => if present then some letter else none

/-- The digits that an address is padded to. An untagged address is not padded. -/
def addressWidth : Encoding → Nat
  | .word16 .littleEndian | .untagged => 0
  | _ => 4

/-- A memory operand. -/
def writeMemory (access : MemoryAccess) : List Char :=
  writeModifiers access.modifiers ++ access.encoding.tag.toList ++
    hexadecimal (addressWidth access.encoding) access.address.toNat

/-- One side of a comparison. -/
def writeOperand : Operand → List Char
  | .memory access => writeMemory access
  | .constant (.int value) => signedDecimal value.toInt
  | .constant (.real value) => realLayout.write value
  | .recall => "recall".toList

/-- The flag of a clause with its colon. -/
def writeFlag (flag : Flag) : List Char :=
  match flag.letter? with
  | some letter => [letter, ':']
  | none => []

/-- The comparison of a clause. -/
def writeComparison (clause : Clause) : List Char :=
  writeOperand clause.left ++ clause.comparison.symbol ++ writeOperand clause.right

/-- A number of hits, if there is one. -/
def writeTarget (target : UInt32) : List Char :=
  if 0 < target then '(' :: decimal target.toNat ++ [')'] else []

/-- One clause. -/
def writeClause (clause : Clause) : List Char :=
  writeFlag clause.flag ++ writeComparison clause ++ writeTarget clause.target

/-- The clauses of a formula, joined by underscores. -/
def write (clauses : List Clause) : String :=
  String.ofList (['_'].intercalate (clauses.map writeClause))

end Achievements.Formula
