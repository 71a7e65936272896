import Achievements.Decimal.Layout
import Achievements.Memory.Access
import Achievements.Number

/-!
# Clauses of a formula

A formula is a list of clauses. Each clause compares two operands and carries a flag that says what
the comparison is for, and the number of frames on which it has to hold. A clause is what the
author wrote; what has happened to it during play is kept apart, in `Condition`.
-/

set_option autoImplicit false

namespace Achievements

/-- What a clause is for. -/
inductive Flag where
  /-- It has to hold. -/
  | plain
  /-- While it holds nothing counts. -/
  | pauseIf
  /-- When it holds all counting starts over. -/
  | resetIf
  /-- When it holds the next clause's counting starts over. -/
  | resetNextIf
  /-- Its left operand is added to the next comparison's left side. -/
  | addSource
  /-- Its left operand is subtracted from the next comparison's left side. -/
  | subSource
  /-- Each frame on which it holds counts for the clause before it. -/
  | addHits
  /-- Each frame on which it holds is taken off the clause before it. -/
  | subHits
  /-- Its left operand is added to the addresses of the next comparison. -/
  | addAddress
  /-- It is joined to the next clause: both have to hold. -/
  | andNext
  /-- It is joined to the next clause: one of them has to hold. -/
  | orNext
  /-- It has to hold, and its left side is published as progress. -/
  | measured
  /-- Like `measured`, published as a percentage. -/
  | measuredPercent
  /-- Progress is published only while it holds. -/
  | measuredIf
  /-- It has to hold after everything else does. -/
  | trigger
  /-- Its left side is remembered. -/
  | remember
  deriving DecidableEq, Repr, Inhabited

namespace Flag

/-- Every flag, once. -/
def all : List Flag :=
  [.plain, .pauseIf, .resetIf, .resetNextIf, .addSource, .subSource, .addHits, .subHits,
    .addAddress, .andNext, .orNext, .measured, .measuredPercent, .measuredIf, .trigger, .remember]

/-- The name in documents and descriptions. -/
def name : Flag → String
  | .plain => "None"
  | .pauseIf => "PauseIf"
  | .resetIf => "ResetIf"
  | .resetNextIf => "ResetNextIf"
  | .addSource => "AddSource"
  | .subSource => "SubSource"
  | .addHits => "AddHits"
  | .subHits => "SubHits"
  | .addAddress => "AddAddress"
  | .andNext => "AndNext"
  | .orNext => "OrNext"
  | .measured => "Measured"
  | .measuredPercent => "MeasuredPercent"
  | .measuredIf => "MeasuredIf"
  | .trigger => "Trigger"
  | .remember => "Remember"

/-- The flag of a name. -/
def ofName? (text : String) : Option Flag :=
  all.find? fun flag => flag.name == text

/-- The letter that stands for the flag in a formula. -/
def letter? : Flag → Option Char
  | .plain => none
  | .pauseIf => some 'P'
  | .resetIf => some 'R'
  | .resetNextIf => some 'Z'
  | .addSource => some 'A'
  | .subSource => some 'B'
  | .addHits => some 'C'
  | .subHits => some 'D'
  | .addAddress => some 'I'
  | .andNext => some 'N'
  | .orNext => some 'O'
  | .measured => some 'M'
  | .measuredPercent => some 'G'
  | .measuredIf => some 'Q'
  | .trigger => some 'T'
  | .remember => some 'K'

/-- The flag of a letter in either case; any other letter stands for no flag. -/
def ofLetter (letter : Char) : Flag :=
  match letter.toUpper with
  | 'P' => .pauseIf
  | 'R' => .resetIf
  | 'Z' => .resetNextIf
  | 'A' => .addSource
  | 'B' => .subSource
  | 'C' => .addHits
  | 'D' => .subHits
  | 'I' => .addAddress
  | 'N' => .andNext
  | 'O' => .orNext
  | 'M' => .measured
  | 'G' => .measuredPercent
  | 'Q' => .measuredIf
  | 'T' => .trigger
  | 'K' => .remember
  | _ => .plain

/-- The flag of the text before a colon. -/
def ofText : List Char → Flag
  | [letter] => ofLetter letter
  | _ => .plain

/-- Does the flag join a clause to the next one? -/
def isLink : Flag → Bool
  | .andNext | .orNext => true
  | _ => false

/-- Does the clause only feed the next comparison? -/
def isAccumulator : Flag → Bool
  | .addSource | .subSource | .addAddress => true
  | _ => false

/-- Is progress published from the clause? -/
def isMeasured : Flag → Bool
  | .measured | .measuredPercent => true
  | _ => false

/-- Does the clause stop or undo progress when it holds? -/
def isDisruptive : Flag → Bool
  | .pauseIf | .resetIf | .resetNextIf => true
  | _ => false

end Flag

/-- How two operands are compared. -/
inductive Comparison where
  | eq
  | ne
  | lt
  | le
  | gt
  | ge
  deriving DecidableEq, Repr, Inhabited

namespace Comparison

/-- Every comparison, once. -/
def all : List Comparison := [.eq, .ne, .lt, .le, .gt, .ge]

/-- The name in documents. -/
def name : Comparison → String
  | .eq => "Eq"
  | .ne => "Ne"
  | .lt => "Lt"
  | .le => "Le"
  | .gt => "Gt"
  | .ge => "Ge"

/-- The comparison of a name. -/
def ofName? (text : String) : Option Comparison :=
  all.find? fun comparison => comparison.name == text

/-- The symbol in a formula. -/
def symbol : Comparison → List Char
  | .eq => ['=']
  | .ne => ['!', '=']
  | .lt => ['<']
  | .le => ['<', '=']
  | .gt => ['>']
  | .ge => ['>', '=']

/-- The symbol in descriptions. -/
def describe : Comparison → List Char
  | .eq => ['=', '=']
  | comparison => comparison.symbol

/-- Does the comparison hold of operands in the given order? -/
def holds : Comparison → Ordering → Bool
  | .eq, order => order == .eq
  | .ne, order => order != .eq
  | .lt, order => order == .lt
  | .le, order => order != .gt
  | .gt, order => order == .gt
  | .ge, order => order != .lt

/-- The comparison that says the same of the operands exchanged. -/
def converse : Comparison → Comparison
  | .lt => .gt
  | .le => .ge
  | .gt => .lt
  | .ge => .le
  | comparison => comparison

theorem holds_converse (comparison : Comparison) (order : Ordering) :
    comparison.converse.holds order.swap = comparison.holds order := by
  cases comparison <;> cases order <;> rfl

end Comparison

/-- One side of a comparison. -/
inductive Operand where
  | memory (access : MemoryAccess)
  | constant (value : Number)
  /-- The remembered value, zero as long as nothing is remembered. -/
  | recall
  deriving BEq, Inhabited

namespace Operand

def memory? : Operand → Option MemoryAccess
  | .memory access => some access
  | _ => none

def constant? : Operand → Option Number
  | .constant value => some value
  | _ => none

end Operand

/-- What is compared, what for, and on how many frames it has to hold. A target of zero asks for one
frame. -/
structure Clause where
  flag : Flag
  left : Operand
  comparison : Comparison
  right : Operand
  target : UInt32 := 0
  deriving BEq, Inhabited

namespace Clause

/-- Does either side read memory? -/
def hasMemory (clause : Clause) : Bool :=
  clause.left.memory?.isSome || clause.right.memory?.isSome

end Clause

/-- Doubles in descriptions: always positional, whole numbers without a point. -/
def Number.describeLayout : Decimal.Layout where
  positional := fun _ => true
  wholeSuffix := ""
  exponentPlus := ""
  tie := .up
  nan := "NaN"
  infinity := "inf"

/-- A number as it is described to a user. -/
def Number.describe : Number → List Char
  | .int value => Text.signedDecimal value.toInt
  | .real value => describeLayout.write value

/-- An operand as it is described to a user. -/
def Operand.describe : Operand → List Char
  | .memory access => access.describe
  | .constant value => "Const(".toList ++ value.describe ++ [')']
  | .recall => "Recall".toList

end Achievements
