import Achievements.Formula.Condition
import Achievements.Proofs.Formula.Tokens

/-!
# Formulas are read back as they were written

The text of a clause is a token whose only count is the number of hits, in parentheses. So a clause
comes back from it with its operands settled, and as it was if they have texts of their own.
-/

set_option autoImplicit false

namespace Achievements

namespace Formula

open Text

/-! ## Clauses as tokens -/

/-- A number of hits in parentheses, or none at all. -/
def Counts.ofTarget (target : UInt32) : Counts where
  seconds := none
  dots := none
  parenthesis := if 0 < target then some target else none
  dotsFirst := false
  secondsPositive := by rintro _ ⟨⟩
  dotsPositive := by rintro _ ⟨⟩

theorem target_of_target (framesPerSecond target : UInt32) :
    (Counts.ofTarget target).target framesPerSecond = target := by
  unfold Counts.target Counts.ofTarget Counts.frames ranked
  by_cases targeted : 0 < target
  · simp [targeted]
  · have untargeted : target = 0 := by simpa using targeted
    simp [untargeted]

theorem write_clause_eq (clause : Clause) :
    writeClause clause = writeToken clause.flag (.ofTarget clause.target) clause := by
  have trailing : (Counts.ofTarget clause.target).trailing = writeTarget clause.target := by
    unfold Counts.trailing Counts.ofTarget writeTarget
    by_cases targeted : 0 < clause.target <;> simp [targeted, markedCount]
  rw [writeToken, trailing, writeClause, List.append_assoc]
  rfl

theorem read_written_clause (framesPerSecond : UInt32) (clause : Clause) :
    readToken framesPerSecond (writeClause clause) = (clause.settled, none) := by
  rw [write_clause_eq, read_token, target_of_target]
  rfl

/-! ## Formulas -/

theorem split_ne_nil (separator : Char) (text : List Char) : splitAt separator text ≠ [] := by
  cases text with
  | nil => exact List.cons_ne_nil _ _
  | cons c rest =>
      rw [splitAt]
      split
      · exact List.cons_ne_nil _ _
      · split <;> exact List.cons_ne_nil _ _

/-- A separator ends a piece, whatever stands on either side of it. -/
theorem split_joined (separator : Char) (first second : List Char) :
    splitAt separator (first ++ separator :: second) =
      splitAt separator first ++ splitAt separator second := by
  induction first with
  | nil => exact if_pos rfl
  | cons c first ih =>
      obtain ⟨piece, pieces, split⟩ := List.exists_cons_of_ne_nil (split_ne_nil separator first)
      rw [List.cons_append, splitAt, splitAt, ih, split]
      by_cases same : c = separator
      · rw [if_pos same, if_pos same]
        rfl
      · rw [if_neg same, if_neg same]
        rfl

/-- Splitting undoes joining, for pieces without the separator. -/
theorem split_intercalate {separator : Char} {pieces : List (List Char)} (nonempty : pieces ≠ [])
    (absent : ∀ piece ∈ pieces, separator ∉ piece) :
    splitAt separator ([separator].intercalate pieces) = pieces := by
  induction pieces with
  | nil => exact absurd rfl nonempty
  | cons piece pieces ih =>
      have own := absent piece List.mem_cons_self
      cases pieces with
      | nil =>
          rw [List.intercalate_singleton]
          exact split_alone own
      | cons next pieces =>
          have later := ih (List.cons_ne_nil _ _) fun other member =>
            absent other (List.mem_cons_of_mem _ member)
          rw [List.intercalate_cons_cons, List.append_assoc, List.singleton_append,
            split_joined, split_alone own, later, List.singleton_append]

theorem tokens_of_written (clauses : List Clause) :
    tokens (write clauses).toList = clauses.map writeClause := by
  rw [write, String.toList_ofList, tokens]
  by_cases empty : clauses = []
  · subst empty
    rfl
  · have separate : ∀ piece ∈ clauses.map writeClause, '_' ∉ piece := by
      intro piece member
      obtain ⟨clause, -, rfl⟩ := List.mem_map.mp member
      rw [write_clause_eq]
      exact no_underscore _ _ clause
    have trimmed : (clauses.map writeClause).map trim = clauses.map writeClause := by
      rw [List.map_map]
      refine List.map_congr_left fun clause _ => ?_
      rw [Function.comp_apply, write_clause_eq, trim_token]
    rw [split_intercalate (by simpa using empty) separate, trimmed, List.filter_eq_self]
    intro piece member
    obtain ⟨clause, -, rfl⟩ := List.mem_map.mp member
    rw [write_clause_eq]
    simpa using token_ne_nil _ _ clause

/-- Whatever clauses are written, their text is read as the same clauses, settled. -/
theorem read_write (framesPerSecond : UInt32) (clauses : List Clause) :
    read framesPerSecond (write clauses) = clauses.map Clause.settled := by
  rw [read, tokens_of_written clauses, List.flatMap_map]
  induction clauses with
  | nil => rfl
  | cons clause clauses ih =>
      rw [List.flatMap_cons, ih, read_clauses_of_last (read_written_clause framesPerSecond clause)]
      rfl

theorem read_written (framesPerSecond : UInt32) {clauses : List Clause}
    (writable : ∀ clause ∈ clauses, clause.IsWritable) :
    read framesPerSecond (write clauses) = clauses := by
  have settled : clauses.map Clause.settled = clauses.map id :=
    List.map_congr_left fun clause member => Clause.settled_of_writable (writable clause member)
  rw [read_write, settled, List.map_id]

/-- Conditions whose operands have texts of their own are read back from their text as they were
before the first frame, whatever durations would be worth. -/
theorem read_write_conditions (framesPerSecond : UInt32) (conditions : List Condition)
    (writable : ∀ condition ∈ conditions, condition.clause.IsWritable) :
    (read framesPerSecond (write (conditions.map Condition.clause))).map Condition.fresh =
      conditions.map Condition.reset := by
  have clausesWritable : ∀ clause ∈ conditions.map Condition.clause, clause.IsWritable := by
    intro clause member
    obtain ⟨condition, inConditions, rfl⟩ := List.mem_map.mp member
    exact writable condition inConditions
  rw [read_written framesPerSecond clausesWritable, List.map_map]
  rfl

/-- Conditions under way, with fragments that look like a duration, a negative number and an address
after a blank. -/
def fragments : List Condition :=
  [⟨{ flag := .resetIf
      left := .memory
        { encoding := .bit ⟨6, by decide⟩, address := 0x2
          modifiers := { delta := true, invert := true } }
      comparison := .le, right := .constant (.int (-5)), target := 7 }, ⟨3, true⟩⟩,
    ⟨{ flag := .plain, left := .constant (.int 2), comparison := .ne
       right := .memory { encoding := .word16 .littleEndian, address := 0x5 } }, ⟨0, false⟩⟩,
    ⟨{ flag := .addSource, left := .recall, comparison := .gt
       right := .memory { encoding := .real .single .bigEndian, address := 0xFFFFFFFF }
       target := 4294967295 }, ⟨9, false⟩⟩]

theorem fragments_are_read_back :
    (∀ condition ∈ fragments, condition.clause.IsWritable) ∧
      (read 60 (write (fragments.map Condition.clause))).map Condition.fresh =
        fragments.map Condition.reset :=
  ⟨by decide, read_write_conditions 60 fragments (by decide)⟩

end Formula

end Achievements
