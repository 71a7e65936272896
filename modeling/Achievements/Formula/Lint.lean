import Achievements.Formula.Clause

/-!
# Warnings about formulas

Every text is a formula, but some formulas are unlikely to mean what their author intended: those
that compare constants, and those whose last clause waits for another one.
-/

set_option autoImplicit false

namespace Achievements.Formula

/-- What is suspicious about a formula. Clauses are counted from zero. -/
inductive Warning where
  | empty
  | resetNextWithoutTarget (index : Nat)
  | danglingChain (index : Nat) (flag : Flag)
  | danglingAccumulator (index : Nat) (flag : Flag)
  | noMemoryOperand (index : Nat)
  deriving DecidableEq, Repr

def Warning.message : Warning → String
  | .empty => "formula has no conditions"
  | .resetNextWithoutTarget index =>
      s!"condition {index}: ResetNextIf has no following condition"
  | .danglingChain index flag => s!"condition {index}: {flag.name} chain is not closed"
  | .danglingAccumulator index flag =>
      s!"condition {index}: {flag.name} has no comparison to feed"
  | .noMemoryOperand index => s!"condition {index}: no memory operand on either side"

/-- Does a clause compare two constants, other than to feed the next comparison? -/
def comparesConstants (clause : Clause) : Bool :=
  clause.left.constant?.isSome && clause.right.constant?.isSome && !clause.flag.isAccumulator

/-- Warnings about clauses from an index on that compare two constants. -/
def constantWarnings : Nat → List Clause → List Warning
  | _, [] => []
  | index, clause :: rest =>
      if comparesConstants clause then .noMemoryOperand index :: constantWarnings (index + 1) rest
      else constantWarnings (index + 1) rest

/-- A warning about the last clause, if it waits for another one. -/
def lastWarnings (index : Nat) (flag : Flag) : List Warning :=
  if flag = .resetNextIf then [.resetNextWithoutTarget index]
  else if flag.isLink then [.danglingChain index flag]
  else if flag.isAccumulator then [.danglingAccumulator index flag]
  else []

/-- All warnings about a formula, in the order of its clauses, the one about the last clause's flag
at the end. -/
def warnings (clauses : List Clause) : List Warning :=
  match clauses.getLast? with
  | none => [.empty]
  | some last =>
      constantWarnings 0 clauses ++ lastWarnings (clauses.length - 1) last.flag

end Achievements.Formula
