import Achievements.Proofs.Formula.Marks

/-!
# Tokens are read from both ends

The reader takes a token apart from both ends: a flag, a duration, numbers of hits, and then the first
comparison that it finds. For a clause between written operands each of these steps finds what was
written and nothing else, since the characters that they look for do not occur in operands.
`Formula.counts_are_ranked` says what the number of hits is if a token has several counts.
-/

set_option autoImplicit false

namespace Achievements

/-- Clauses between operands that have a text of their own. -/
structure Clause.IsWritable (clause : Clause) : Prop where
  left : clause.left.IsWritable
  right : clause.right.IsWritable

instance (clause : Clause) : Decidable clause.IsWritable :=
  decidable_of_iff (clause.left.IsWritable ∧ clause.right.IsWritable)
    ⟨fun both => ⟨both.1, both.2⟩, fun writable => ⟨writable.left, writable.right⟩⟩

/-- What the text of a clause is read as. -/
def Clause.settled (clause : Clause) : Clause :=
  { clause with left := clause.left.settled, right := clause.right.settled }

theorem Clause.settled_of_writable {clause : Clause} (writable : clause.IsWritable) :
    clause.settled = clause := by
  rw [settled, Operand.settled_of_writable writable.left,
    Operand.settled_of_writable writable.right]

namespace Formula

open Text

/-! ## Counts -/

/-- Counts around the comparison of a token: a duration in front of it, and behind it numbers of hits
between dots and in parentheses, in either order. -/
structure Counts where
  seconds : Option UInt64
  dots : Option UInt32
  parenthesis : Option UInt32
  dotsFirst : Bool
  secondsPositive : ∀ count ∈ seconds, 0 < count
  dotsPositive : ∀ count ∈ dots, 0 < count

namespace Counts

variable (counts : Counts)

/-- The duration. -/
def leading : List Char :=
  match counts.seconds with
  | some count => decimal count.toNat ++ ['S']
  | none => []

/-- The numbers of hits. -/
def trailing : List Char :=
  if counts.dotsFirst then markedCount '.' '.' counts.dots ++ markedCount '(' ')' counts.parenthesis
  else markedCount '(' ')' counts.parenthesis ++ markedCount '.' '.' counts.dots

/-- The frames in the duration, of which there is at least one a second. -/
def frames (framesPerSecond : UInt32) : UInt32 :=
  match counts.seconds with
  | some count => UInt32.ofNat (min (count.toNat * max framesPerSecond.toNat 1) limit32)
  | none => 0

/-- The number in parentheses, the frames, or the number between dots: the first that is not zero. -/
def target (framesPerSecond : UInt32) : UInt32 :=
  ranked counts.parenthesis (counts.frames framesPerSecond) counts.dots

theorem leading_chars : ∀ c ∈ counts.leading, c.isAlphanum = true := by
  intro c member
  unfold leading at member
  split at member
  · rcases List.mem_append.mp member with digit | mark
    · exact alphanum_of_digit (digit_of_mem_decimal _ c digit)
    · rw [List.mem_singleton.mp mark]
      rfl
  · cases member

theorem trailing_chars : ∀ c ∈ counts.trailing, c ∈ ['.', '(', ')'] ∨ c.isDigit = true := by
  have dots := marked_count_chars '.' '.' counts.dots
  have parenthesis := marked_count_chars '(' ')' counts.parenthesis
  intro c member
  simp only [List.mem_cons, List.not_mem_nil, or_false]
  unfold trailing at member
  split at member <;> rcases List.mem_append.mp member with inside | inside
  · rcases dots c inside with same | same | digit <;> simp [*]
  · rcases parenthesis c inside with same | same | digit <;> simp [*]
  · rcases parenthesis c inside with same | same | digit <;> simp [*]
  · rcases dots c inside with same | same | digit <;> simp [*]

theorem trailing_first : ∀ c ∈ counts.trailing.head?, c ∈ ['.', '('] := by
  have dots := marked_count_first '.' '.' counts.dots
  have parenthesis := marked_count_first '(' ')' counts.parenthesis
  intro c first
  unfold trailing at first
  rw [List.mem_cons, List.mem_singleton]
  split at first <;> rw [List.head?_append, Option.mem_def, Option.or_eq_some_iff] at first
  · exact first.elim (fun first => Or.inl (dots c first))
      fun first => Or.inr (parenthesis c first.2)
  · exact first.elim (fun first => Or.inr (parenthesis c first))
      fun first => Or.inl (dots c first.2)

theorem last_of_trailing (text : List Char) :
    ∀ c ∈ (text ++ counts.trailing).getLast?, c ∈ text.getLast? ∨ c ∈ ['.', ')'] := by
  intro c last
  unfold trailing at last
  split at last <;> rw [← List.append_assoc] at last <;>
    rcases last_of_marked_count _ _ _ _ c last with last | rfl
  · rcases last_of_marked_count _ _ _ _ c last with last | rfl
    · exact Or.inl last
    · exact Or.inr (by decide)
  · exact Or.inr (by decide)
  · rcases last_of_marked_count _ _ _ _ c last with last | rfl
    · exact Or.inl last
    · exact Or.inr (by decide)
  · exact Or.inr (by decide)

/-- Whichever comes last, both numbers are found. -/
theorem take_hits (duration : UInt32) {text : List Char}
    (last : ∀ c ∈ text.getLast?, c.isAlphanum = true) :
    takeHits duration (text ++ counts.trailing) =
      (ranked counts.parenthesis duration counts.dots, text) := by
  have positive := counts.dotsPositive
  unfold trailing
  cases counts.dotsFirst with
  | false => exact take_hits_dots_last duration last positive counts.parenthesis
  | true =>
      cases counts.parenthesis with
      | some count => exact take_hits_dots_first duration last positive count
      | none =>
          have dotsLast := take_hits_dots_last duration last positive none
          rwa [marked_count_none, List.nil_append, ← List.append_nil (markedCount _ _ counts.dots)]
            at dotsLast

end Counts

/-! ## Clauses -/

theorem operand_char_ne {c other : Char} (char : isOperandChar c = true)
    (outside : isOperandChar other = false) : c ≠ other := by
  rintro rfl
  rw [char] at outside
  cases outside

theorem operator_outside : ∀ c ∈ operatorChars, isOperandChar c = false :=
  check_chars _ _ rfl

theorem operand_plain (operand : Operand) : ∀ c ∈ writeOperand operand, c ∉ operatorChars := by
  intro c member operator
  exact operand_char_ne (operand_chars operand c member) (operator_outside c operator) rfl

theorem Counts.trailing_plain (counts : Counts) : ∀ c ∈ counts.trailing, c ∉ operatorChars := by
  have marks : ∀ c ∈ ['.', '(', ')'], c ∉ operatorChars := check_chars _ _ rfl
  have digits : ∀ c ∈ operatorChars, c.isDigit = false := check_chars _ _ rfl
  intro c member operator
  rcases counts.trailing_chars c member with mark | digit
  · exact marks c mark operator
  · rw [digits c operator] at digit
    cases digit

theorem of_letter {flag : Flag} {letter : Char} (written : flag.letter? = some letter) :
    letter.utf8Size ≤ 2 ∧ Flag.ofLetter letter = flag ∧ isBlank letter = false ∧
      letter ≠ ':' ∧ letter ≠ '_' := by
  cases flag <;> cases written <;> decide

theorem take_flag (flag : Flag) {work : List Char} (noColon : ':' ∉ work) :
    takeFlag (writeFlag flag ++ work) = (flag, work) := by
  rw [writeFlag]
  cases written : flag.letter? with
  | some letter =>
      obtain ⟨short, read, _, other, _⟩ := of_letter written
      simp [takeFlag, short, Flag.ofText, read]
  | none =>
      have plain : flag = .plain := by
        cases flag <;> first | rfl | cases written
      rw [plain, List.nil_append]
      unfold takeFlag
      split
      · rfl
      · exact absurd (by simp) noColon
      · exact absurd (by simp) noColon
      · rfl

section Clause

variable (clause : Clause)

theorem comparison_ne_nil : writeComparison clause ≠ [] :=
  List.append_ne_nil_of_right_ne_nil _ (operand_start clause.right).ne_nil

theorem last_of_comparison : ∀ c ∈ (writeComparison clause).getLast?, c.isAlphanum = true := by
  intro c last
  rw [writeComparison, last_of_append _ (operand_start clause.right).ne_nil] at last
  exact operand_last clause.right c last

theorem first_of_comparison : ∀ c ∈ (writeComparison clause).head?, isBlank c = false := by
  have start := operand_start clause.left
  intro c first
  rw [writeComparison, List.append_assoc, List.head?_append_of_ne_nil _ start.ne_nil] at first
  exact start.head_visible c first

theorem find_written (rest : List Char) (plain : ∀ c ∈ rest, c ∉ operatorChars) :
    findComparison? (writeComparison clause ++ rest) =
      some ⟨writeOperand clause.left, clause.comparison, writeOperand clause.right ++ rest⟩ := by
  rw [writeComparison, List.append_assoc, List.append_assoc]
  apply find_comparison clause.comparison (operand_start clause.left).ne_nil
    (operand_plain clause.left)
  intro c member
  rcases List.mem_append.mp member with inRight | inRest
  · exact operand_plain clause.right c inRight
  · exact plain c inRest

theorem no_leading_duration (rest : List Char) :
    readDuration? (writeComparison clause ++ rest) = none := by
  rw [writeComparison, List.append_assoc, List.append_assoc]
  apply no_duration (operand_start clause.left)
  cases clause.comparison <;> (rintro c ⟨⟩; decide)

end Clause

/-! ## Tokens -/

/-- Reads a token whose flag and leading duration have been taken off. -/
def readWork (framesPerSecond : UInt32) (flag : Flag) (frames : UInt32) (work : List Char) :
    Clause × Option (List Char) :=
  match findEmbedded? work with
  | none => (readBody flag frames work, none)
  | some embedded =>
      if embedded.tail.isEmpty then
        (readBody flag (max frames (framesIn framesPerSecond embedded.seconds)) embedded.body, none)
      else
        let flag := if flag = .plain then .andNext else flag
        (readBody flag frames embedded.body,
          some (decimal embedded.seconds ++ 'S' :: embedded.tail))

theorem read_token_eq (framesPerSecond : UInt32) (token : List Char) :
    readToken framesPerSecond token =
      match readDuration? (takeFlag token).2 with
      | some duration => readWork framesPerSecond (takeFlag token).1
          (framesIn framesPerSecond duration.seconds) duration.rest
      | none => readWork framesPerSecond (takeFlag token).1 0 (takeFlag token).2 := by
  rw [readToken]
  cases takeFlag token with
  | mk flag work =>
      simp only
      cases readDuration? work <;> rfl

/-- A flag, and a comparison between its counts. -/
def writeToken (flag : Flag) (counts : Counts) (clause : Clause) : List Char :=
  writeFlag flag ++ (counts.leading ++ (writeComparison clause ++ counts.trailing))

section Token

variable (flag : Flag) (counts : Counts) (clause : Clause)

/-- The characters of a token after its flag. -/
theorem work_chars : ∀ c ∈ counts.leading ++ (writeComparison clause ++ counts.trailing),
    c ∈ operatorChars ++ ['(', ')'] ∨ isOperandChar c = true := by
  have alphanum : ∀ c : Char, c.isAlphanum = true → isOperandChar c = true := by
    intro c char
    simp [isOperandChar, char]
  have marks : ∀ c ∈ ['.', '(', ')'], c ∈ operatorChars ++ ['(', ')'] ∨ isOperandChar c = true :=
    check_chars _ _ rfl
  intro c member
  simp only [writeComparison, List.mem_append (s := counts.leading),
    List.mem_append (t := counts.trailing)] at member
  rcases member with inLeading | inComparison | inTrailing
  · exact Or.inr (alphanum c (counts.leading_chars c inLeading))
  · rcases List.mem_append.mp inComparison with front | inRight
    · rcases List.mem_append.mp front with inLeft | inSymbol
      · exact Or.inr (operand_chars clause.left c inLeft)
      · exact Or.inl (List.mem_append_left _ (symbol_chars _ c inSymbol))
    · exact Or.inr (operand_chars clause.right c inRight)
  · rcases counts.trailing_chars c inTrailing with mark | digit
    · exact marks c mark
    · exact Or.inr (alphanum c (alphanum_of_digit digit))

theorem work_char_ne {other : Char} (outside : isOperandChar other = false)
    (absent : other ∉ operatorChars ++ ['(', ')']) :
    other ∉ counts.leading ++ (writeComparison clause ++ counts.trailing) := by
  intro member
  rcases work_chars counts clause other member with separator | char
  · exact absent separator
  · rw [outside] at char
    cases char

theorem leading_duration (rest : List Char) :
    readDuration? (counts.leading ++ (writeComparison clause ++ rest)) =
      counts.seconds.map fun seconds =>
        ⟨seconds.toNat, decimal seconds.toNat, writeComparison clause ++ rest⟩ := by
  unfold Counts.leading
  cases written : counts.seconds with
  | none => exact no_leading_duration clause rest
  | some seconds =>
      rw [List.append_assoc, List.singleton_append]
      apply duration_some (counts.secondsPositive seconds written)
      rw [List.head?_append_of_ne_nil _ (comparison_ne_nil clause)]
      exact first_of_comparison clause

theorem no_embedded_duration : findEmbedded? (writeComparison clause ++ counts.trailing) = none := by
  have mark : ∀ c ∈ ['.', '('], c.isDigit = false ∧ c ≠ 'S' ∧ c ≠ 's' := check_chars _ _ rfl
  have found := find_written clause counts.trailing counts.trailing_plain
  have duration := no_duration (operand_start clause.right) fun c first =>
    mark c (counts.trailing_first c first)
  simp only [findEmbedded?, found, duration]

theorem read_body (duration : UInt32) :
    readBody flag duration (writeComparison clause ++ counts.trailing) =
      { clause.settled with flag, target := ranked counts.parenthesis duration counts.dots } := by
  have taken := counts.take_hits duration (last_of_comparison clause)
  have found := find_written clause [] (fun c member => by cases member)
  simp only [List.append_nil] at found
  simp only [readBody, taken, found, read_write_operand clause.left,
    read_write_operand clause.right, Clause.settled]

/-- The clause is all that the token is read as, with a target that is one of the counts. -/
theorem read_token (framesPerSecond : UInt32) :
    readToken framesPerSecond (writeToken flag counts clause) =
      ({ clause.settled with flag, target := counts.target framesPerSecond }, none) := by
  have flagTaken := take_flag flag (work_char_ne counts clause rfl (by decide) : ':' ∉ _)
  -- With a duration or without, the rest is the comparison and the counts behind it.
  rw [read_token_eq, writeToken, flagTaken, leading_duration]
  unfold Counts.target Counts.frames
  cases seconds : counts.seconds with
  | some seconds =>
      simp only [Option.map_some, readWork, no_embedded_duration, read_body, framesIn]
  | none =>
      simp only [Option.map_none, Counts.leading, seconds, List.nil_append, readWork,
        no_embedded_duration, read_body]

theorem token_ne_nil : writeToken flag counts clause ≠ [] := by
  refine List.append_ne_nil_of_right_ne_nil _ (List.append_ne_nil_of_right_ne_nil _ ?_)
  exact List.append_ne_nil_of_left_ne_nil (comparison_ne_nil clause) _

theorem no_underscore : '_' ∉ writeToken flag counts clause := by
  rw [writeToken, List.mem_append, not_or]
  refine ⟨?_, work_char_ne counts clause rfl (by decide)⟩
  unfold writeFlag
  cases written : flag.letter? with
  | some letter =>
      have other := (of_letter written).2.2.2.2
      simp only [List.mem_cons, List.not_mem_nil, or_false, not_or]
      exact ⟨other.symm, by decide⟩
  | none => exact List.not_mem_nil

/-- Neither end of a token is blank. -/
theorem trim_token : trim (writeToken flag counts clause) = writeToken flag counts clause := by
  apply trim_eq
  · intro c first
    have inLeading : ∀ c ∈ counts.leading, isBlank c = false := fun c member =>
      visible_of_alphanum (counts.leading_chars c member)
    rw [writeToken, writeFlag] at first
    cases written : flag.letter? with
    | some letter =>
        rw [written] at first
        cases first
        exact (of_letter written).2.2.1
    | none =>
        rw [written, List.nil_append, List.head?_append, Option.mem_def,
          Option.or_eq_some_iff] at first
        rcases first with first | ⟨_, first⟩
        · exact inLeading c (List.mem_of_mem_head? first)
        · rw [List.head?_append_of_ne_nil _ (comparison_ne_nil clause)] at first
          exact first_of_comparison clause c first
  · intro c last
    have marks : ∀ c ∈ ['.', ')'], isBlank c = false := check_chars _ _ rfl
    rw [writeToken, ← List.append_assoc, ← List.append_assoc] at last
    rcases counts.last_of_trailing _ c last with last | mark
    · rw [last_of_append _ (comparison_ne_nil clause)] at last
      exact visible_of_alphanum (last_of_comparison clause c last)
    · exact marks c mark

end Token

/-! ## Formulas -/

theorem split_alone {separator : Char} {piece : List Char} (absent : separator ∉ piece) :
    splitAt separator piece = [piece] := by
  induction piece with
  | nil => rfl
  | cons c rest ih =>
      simp only [List.mem_cons, not_or] at absent
      rw [splitAt, if_neg (fun same => absent.1 same.symm), ih absent.2]

theorem tokens_alone {text : List Char} (nonempty : text ≠ []) (alone : '_' ∉ text)
    (trimmed : trim text = text) : tokens text = [text] := by
  have filled : text.isEmpty = false := by
    rw [Bool.eq_false_iff, ne_eq, List.isEmpty_iff]
    exact nonempty
  rw [tokens, split_alone alone, List.map_singleton, trimmed]
  simp [filled]

theorem tokens_of_token (flag : Flag) (counts : Counts) (clause : Clause) :
    tokens (writeToken flag counts clause) = [writeToken flag counts clause] :=
  tokens_alone (token_ne_nil flag counts clause) (no_underscore flag counts clause)
    (trim_token flag counts clause)

/-- Counts may stand on either side of a comparison. The number in parentheses takes precedence over
the duration, and that over the number between dots, but a zero counts for nothing. -/
theorem counts_are_ranked (framesPerSecond : UInt32) (flag : Flag) (counts : Counts)
    {clause : Clause} (writable : clause.IsWritable) :
    read framesPerSecond (String.ofList (writeFlag flag ++ counts.leading ++
        writeClause { clause with flag := .plain, target := 0 } ++ counts.trailing)) =
      [{ clause with flag, target := counts.target framesPerSecond }] := by
  have bare : writeClause { clause with flag := .plain, target := 0 } = writeComparison clause :=
    List.append_nil _
  have token : writeFlag flag ++ counts.leading ++ writeComparison clause ++ counts.trailing =
      writeToken flag counts clause := by
    rw [writeToken, List.append_assoc, List.append_assoc]
  have alone := tokens_of_token flag counts clause
  rw [← String.toList_ofList (l := writeToken flag counts clause)] at alone
  rw [bare, token, read_of_last alone (by
    rw [String.toList_ofList]
    exact read_token flag counts clause framesPerSecond), Clause.settled_of_writable writable]

/-- The bit before the last, whose tag is the letter of durations, and an integer that looks like a
fraction in front of a point. -/
def ambiguous : Clause where
  flag := .pauseIf
  left := .memory
    { encoding := .bit (Fin.last 6).castSucc, address := 0x2
      modifiers := { delta := true, invert := true } }
  comparison := .le
  right := .constant (.int (-5))

/-- The longest duration of all, three hits between dots, and a zero in parentheses. -/
def threeCounts : Counts where
  seconds := some 18446744073709551615
  dots := some 3
  parenthesis := some 0
  dotsFirst := true
  secondsPositive := by rintro _ ⟨⟩; decide
  dotsPositive := by rintro _ ⟨⟩; decide

theorem longest_duration_counts :
    ambiguous.IsWritable ∧
      writeToken .resetIf threeCounts ambiguous =
        "R:18446744073709551615Sd~0xS0002<=-5.3.(0)".toList ∧
      read 60 (String.ofList (writeFlag .resetIf ++ threeCounts.leading ++
          writeClause { ambiguous with flag := .plain, target := 0 } ++ threeCounts.trailing)) =
        [{ ambiguous with flag := .resetIf, target := threeCounts.target 60 }] ∧
      threeCounts.target 60 = 4294967295 :=
  ⟨by decide, by decide, counts_are_ranked 60 .resetIf threeCounts (by decide),
    by decide⟩

end Formula

end Achievements
