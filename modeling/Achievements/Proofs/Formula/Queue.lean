import Achievements.Proofs.Formula.RoundTrip

/-!
# Tokens are read one after another

Reading a formula can be seen as work on a queue of tokens. At every turn the first token gives one
clause, and what is left of it, if anything, becomes the first token. So the queue is back to the tokens
behind a token only when the token has given all of its clauses, and these do not depend on the others.
-/

set_option autoImplicit false

namespace Achievements.Formula

open Text

/-- Tokens that are still to be read, and the clauses read so far. -/
structure Queue where
  pending : List (List Char)
  clauses : List Clause := []

namespace Queue

/-- The tokens of a formula, none of which is read yet. -/
def of (text : String) : Queue where
  pending := tokens text.toList

section Turns

variable (framesPerSecond : UInt32)

/-- The first token is read. What is left of it takes its place. -/
def turn (queue : Queue) : Queue :=
  match queue.pending with
  | [] => queue
  | token :: later =>
      let (clause, extra) := readToken framesPerSecond token
      { pending := extra.toList ++ later, clauses := queue.clauses ++ [clause] }

/-- The queue after some turns. -/
def after (queue : Queue) : Nat → Queue
  | 0 => queue
  | turns + 1 => (queue.turn framesPerSecond).after turns

/-- So many turns lead from one queue to another, and each of them finds a token to read. -/
structure Takes (queue : Queue) (turns : Nat) (later : Queue) : Prop where
  after : queue.after framesPerSecond turns = later
  busy : ∀ earlier < turns, (queue.after framesPerSecond earlier).pending ≠ []

end Turns

theorem after_add (framesPerSecond : UInt32) (queue : Queue) (first second : Nat) :
    queue.after framesPerSecond (first + second) =
      (queue.after framesPerSecond first).after framesPerSecond second := by
  induction first generalizing queue with
  | zero => rw [Nat.zero_add]; rfl
  | succ first ih =>
      rw [Nat.succ_add]
      exact ih (queue.turn framesPerSecond)

theorem takes_none (framesPerSecond : UInt32) (queue : Queue) :
    queue.Takes framesPerSecond 0 queue where
  after := rfl
  busy := fun earlier before => absurd before (Nat.not_lt_zero earlier)

theorem takes_turn (framesPerSecond : UInt32) (token : List Char) (later : List (List Char))
    (clauses : List Clause) :
    Takes framesPerSecond ⟨token :: later, clauses⟩ 1
      ⟨(readToken framesPerSecond token).2.toList ++ later,
        clauses ++ [(readToken framesPerSecond token).1]⟩ where
  after := rfl
  busy := by
    intro earlier before
    rw [Nat.lt_one_iff.mp before]
    exact List.cons_ne_nil _ _

theorem Takes.trans {framesPerSecond : UInt32} {queue between later : Queue} {first second : Nat}
    (start : queue.Takes framesPerSecond first between)
    (rest : between.Takes framesPerSecond second later) :
    queue.Takes framesPerSecond (first + second) later where
  after := by rw [after_add, start.after, rest.after]
  busy := by
    intro earlier before
    by_cases inFirst : earlier < first
    · exact start.busy earlier inFirst
    · obtain ⟨more, rfl⟩ := Nat.exists_eq_add_of_le (Nat.le_of_not_lt inFirst)
      rw [after_add, start.after]
      exact rest.busy more (by omega)

/-- A token gives its own clauses, whatever was read before and whatever waits behind it. -/
theorem takes_token (framesPerSecond : UInt32) (token : List Char) (later : List (List Char))
    (clauses : List Clause) :
    Takes framesPerSecond ⟨token :: later, clauses⟩ (readClauses framesPerSecond token).length
      ⟨later, clauses ++ readClauses framesPerSecond token⟩ := by
  -- On what is left of the token, with the clause of this turn among those already read.
  induction token using readClauses.induct framesPerSecond generalizing clauses with
  | case1 token clause last =>
      have turned := takes_turn framesPerSecond token later clauses
      rw [last] at turned
      rw [read_clauses_of_last last]
      exact turned
  | case2 token clause extra divided ih =>
      have turned := takes_turn framesPerSecond token later clauses
      rw [divided] at turned
      have rest := ih (clauses ++ [clause])
      rw [List.append_assoc] at rest
      rw [read_clauses_of_split divided, List.length_cons, Nat.add_comm]
      exact turned.trans rest

theorem takes_tokens (framesPerSecond : UInt32) (first later : List (List Char))
    (clauses : List Clause) :
    Takes framesPerSecond ⟨first ++ later, clauses⟩
      (first.flatMap (readClauses framesPerSecond)).length
      ⟨later, clauses ++ first.flatMap (readClauses framesPerSecond)⟩ := by
  induction first generalizing clauses with
  | nil =>
      rw [List.flatMap_nil, List.append_nil]
      exact takes_none framesPerSecond _
  | cons token first ih =>
      have rest := ih (clauses ++ readClauses framesPerSecond token)
      rw [List.append_assoc] at rest
      rw [List.flatMap_cons, List.length_append]
      exact (takes_token framesPerSecond token (first ++ later) clauses).trans rest

/-- As many turns as the formula has clauses empty the queue, and they read these clauses. -/
theorem takes_formula (framesPerSecond : UInt32) (text : String) :
    (of text).Takes framesPerSecond (read framesPerSecond text).length
      ⟨[], read framesPerSecond text⟩ := by
  have all := takes_tokens framesPerSecond (tokens text.toList) [] []
  rwa [List.append_nil] at all

end Queue

/-! ## Formulas next to each other -/

theorem tokens_joined (first second : List Char) :
    tokens (first ++ '_' :: second) = tokens first ++ tokens second := by
  rw [tokens, split_joined, List.map_append, List.filter_append]
  rfl

theorem tokens_of_joined (first second : String) :
    tokens (first ++ "_" ++ second).toList = tokens first.toList ++ tokens second.toList := by
  rw [String.toList_append, String.toList_append, List.append_assoc]
  exact tokens_joined _ _

theorem read_clauses_eq (framesPerSecond : UInt32) (token : List Char) :
    readClauses framesPerSecond token = (readToken framesPerSecond token).1 ::
      (readToken framesPerSecond token).2.toList.flatMap (readClauses framesPerSecond) := by
  cases reading : readToken framesPerSecond token with
  | mk clause extra =>
      cases extra with
      | none => exact read_clauses_of_last reading
      | some extra =>
          rw [read_clauses_of_split reading, Option.toList_some, List.flatMap_singleton]

/-- An underscore separates formulas. The queue reads the first one with all that is split off its
tokens, is then left with the tokens of the second one, and reads these as if they were alone. What is
split off a token is read right after the clause that it was split from. -/
theorem read_joined (framesPerSecond : UInt32) (first second : String) :
    read framesPerSecond (first ++ "_" ++ second) =
        read framesPerSecond first ++ read framesPerSecond second ∧
      (Queue.of (first ++ "_" ++ second)).Takes framesPerSecond (read framesPerSecond first).length
        ⟨(Queue.of second).pending, read framesPerSecond first⟩ ∧
      (Queue.of (first ++ "_" ++ second)).Takes framesPerSecond
        ((read framesPerSecond first).length + (read framesPerSecond second).length)
        ⟨[], read framesPerSecond first ++ read framesPerSecond second⟩ ∧
      ∀ token, readClauses framesPerSecond token = (readToken framesPerSecond token).1 ::
        (readToken framesPerSecond token).2.toList.flatMap (readClauses framesPerSecond) := by
  have joined : read framesPerSecond (first ++ "_" ++ second) =
      read framesPerSecond first ++ read framesPerSecond second := by
    rw [read, tokens_of_joined, List.flatMap_append]
    rfl
  have start : Queue.of (first ++ "_" ++ second) =
      ⟨tokens first.toList ++ tokens second.toList, []⟩ := by
    rw [Queue.of, tokens_of_joined]
  have whole := Queue.takes_formula framesPerSecond (first ++ "_" ++ second)
  rw [joined, List.length_append] at whole
  refine ⟨joined, ?_, whole, read_clauses_eq framesPerSecond⟩
  rw [start]
  exact Queue.takes_tokens framesPerSecond (tokens first.toList) (tokens second.toList) []

end Achievements.Formula
