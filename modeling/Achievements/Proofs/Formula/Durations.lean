import Achievements.Proofs.Formula.Queue

/-!
# Durations inside a token

A duration on the right of a comparison ends its clause and starts another one, as an underscore would.
Only, the comparison that the reader goes by is the first of the search order that occurs anywhere in the
token, and the second clause has one too. `Formula.duration_divides_iff` says for which comparisons the
token is cut at the duration, and what becomes of it otherwise.
-/

set_option autoImplicit false

namespace Achievements.Formula

open Text

/-! ## Texts that are no operands -/

/-- Characters that make a text unreadable as an operand. -/
structure Foreign (c : Char) : Prop where
  visible : isBlank c = false
  noDigit : c.isDigit = false
  noValue : digitValue? c = none
  noLetter : c.isAlpha = false
  noModifier : modifierOf? c = none
  noTag : Encoding.ofRealTag? c = none
  noMark : c ∉ ['.', '+', '-', '0', 'x', 'X', 'f', 'F']
  noWord : c.toLower ∉ ('\x7b' :: "recall".toList ++ ['\x7d']).map Char.toLower

theorem operator_foreign : ∀ c ∈ operatorChars, Foreign c := by
  intro c operator
  simp only [operatorChars, List.mem_cons, List.not_mem_nil, or_false] at operator
  rcases operator with rfl | rfl | rfl | rfl <;>
    exact ⟨rfl, rfl, rfl, rfl, rfl, rfl, by decide, by decide⟩

namespace Foreign

variable {text : List Char} {c : Char} (foreign : Foreign c) (inside : c ∈ text)
include foreign

theorem ne_mark {mark : Char} (isMark : mark ∈ ['.', '+', '-', '0', 'x', 'X', 'f', 'F']) :
    c ≠ mark :=
  fun same => foreign.noMark (same ▸ isMark)

theorem no_digit (base : ℕ) : ∀ digit ∈ digitValue? c, base ≤ digit := by
  rw [foreign.noValue]
  rintro digit ⟨⟩

include inside

theorem not_recall : isRecall text = false := by
  have lowered : c.toLower ∈ text.map Char.toLower := List.mem_map_of_mem inside
  have noWord := foreign.noWord
  rw [isRecall, Bool.or_eq_false_iff, equalIgnoringAsciiCase, equalIgnoringAsciiCase,
    beq_eq_false_iff_ne, beq_eq_false_iff_ne]
  constructor
  · intro same
    rw [same] at lowered
    rw [List.map_append, List.map_cons] at noWord
    exact noWord (List.mem_append_left _ (List.mem_cons_of_mem _ lowered))
  · intro same
    exact noWord (same ▸ lowered)

theorem no_magnitude (negative : Bool) (base : ℕ) : readMagnitude? negative base text = none := by
  rw [readMagnitude?, read_nat_none inside (foreign.no_digit base)]

theorem no_unsigned_literal (negative : Bool) : readUnsignedLiteral? negative text = none := by
  unfold readUnsignedLiteral?
  split
  · refine foreign.no_magnitude ?_ negative 16
    simpa [foreign.ne_mark] using inside
  · refine foreign.no_magnitude ?_ negative 16
    simpa [foreign.ne_mark] using inside
  · rw [read_fraction_none negative inside ⟨foreign.noDigit, foreign.ne_mark (by decide)⟩,
      foreign.no_magnitude inside]
    rfl

theorem no_literal : readLiteral? text = none := by
  unfold readLiteral?
  split
  · exact foreign.no_unsigned_literal (by simpa [foreign.ne_mark] using inside) _
  · exact foreign.no_unsigned_literal (by simpa [foreign.ne_mark] using inside) _
  · exact foreign.no_unsigned_literal inside _

theorem no_integer : readInt64? text = none := by
  unfold readInt64?
  split
  · rw [read_nat_none (by simpa [foreign.ne_mark] using inside) (foreign.no_digit 10)]
  · rw [read_unsigned_none inside (foreign.no_digit 10) (foreign.ne_mark (by decide))]

theorem in_tagged : c ∈ (readTag text).2 := by
  unfold readTag
  split
  · rename_i first rest
    split
    · rename_i tagged
      refine (List.mem_cons.mp inside).resolve_left ?_
      rintro rfl
      simp [foreign.noLetter] at tagged
    · exact inside
  · exact inside

theorem in_encoded : ∀ encoded ∈ readEncoding? text, c ∈ encoded.2 := by
  intro encoded read
  -- The letter behind an f is a tag, which the character is not.
  have behind : ∀ letter rest, c ∈ letter :: rest →
      (Encoding.ofRealTag? letter).map (·, rest) = some encoded → c ∈ encoded.2 := by
    intro letter rest later tagged
    obtain ⟨encoding, tag, rfl⟩ := Option.map_eq_some_iff.mp tagged
    refine (List.mem_cons.mp later).resolve_left ?_
    rintro rfl
    rw [foreign.noTag] at tag
    cases tag
  unfold readEncoding? at read
  split at read
  · cases read
    exact foreign.in_tagged (by simpa [foreign.ne_mark] using inside)
  · cases read
    exact foreign.in_tagged (by simpa [foreign.ne_mark] using inside)
  · exact behind _ _ ((List.mem_cons.mp inside).resolve_left (foreign.ne_mark (by decide))) read
  · exact behind _ _ ((List.mem_cons.mp inside).resolve_left (foreign.ne_mark (by decide))) read
  · cases read

theorem no_memory (modifiers : Modifiers) : readMemory? modifiers text = none := by
  rw [readMemory?]
  cases read : readEncoding? text with
  | none => rfl
  | some encoded =>
      have address := mem_trim (foreign.in_encoded inside encoded read) foreign.visible
      simp only [read_unsigned_none address (foreign.no_digit 16) (foreign.ne_mark (by decide))]

theorem in_unmodified (modifiers : Modifiers) : c ∈ (readModifiers modifiers text).2 := by
  induction text generalizing modifiers with
  | nil => cases inside
  | cons first rest ih =>
      rw [readModifiers]
      split
      · rename_i modifier
        refine ih ((List.mem_cons.mp inside).resolve_left ?_) _
        rintro rfl
        rw [foreign.noModifier] at modifier
        cases modifier
      · exact inside

/-- A text with such a character is read as zero. -/
theorem read_operand : readOperand text = .constant (.int 0) := by
  have trimmed := mem_trim inside foreign.visible
  have unmodified := foreign.in_unmodified trimmed {}
  have integer := foreign.no_integer (mem_trim unmodified foreign.visible)
  rw [readOperand]
  simp only [foreign.not_recall trimmed, foreign.no_literal trimmed,
    foreign.no_memory unmodified, integer]
  rfl

end Foreign

/-! ## One token for two -/

/-- A comparison with a number, and one that is to hold for as many seconds. -/
structure Shorthand where
  left : Operand
  first : Comparison
  seconds : UInt64
  middle : Operand
  second : Comparison
  right : Operand
  positive : 0 < seconds
  small : seconds.toNat ≤ limit63

namespace Shorthand

variable (shorthand : Shorthand)

/-- Two tokens, in which the number is written twice. -/
def apart : String :=
  String.ofList ("N:".toList ++ writeOperand shorthand.left ++ shorthand.first.symbol ++
    decimal shorthand.seconds.toNat ++ '_' :: decimal shorthand.seconds.toNat ++
    'S' :: writeOperand shorthand.middle ++ shorthand.second.symbol ++ writeOperand shorthand.right)

/-- One token, in which the number and the duration are the same. -/
def joined : String :=
  String.ofList (writeOperand shorthand.left ++ shorthand.first.symbol ++
    decimal shorthand.seconds.toNat ++
    'S' :: writeOperand shorthand.middle ++ shorthand.second.symbol ++ writeOperand shorthand.right)

/-- The comparison with the number. -/
def reached : Clause where
  flag := .andNext
  left := shorthand.left
  comparison := shorthand.first
  right := .constant (.int (Int64.ofNat shorthand.seconds.toNat))

/-- The comparison that is to hold for a while, without its target. -/
def lasting : Clause where
  flag := .plain
  left := shorthand.middle
  comparison := shorthand.second
  right := shorthand.right

/-- What the two tokens are read as. -/
def meant (framesPerSecond : UInt32) : List Clause :=
  [shorthand.reached.settled,
    { shorthand.lasting.settled with
      target := framesIn framesPerSecond shorthand.seconds.toNat }]

/-- What is read when all in front of the second comparison is taken for its left side. -/
def misread : Clause :=
  { shorthand.lasting.settled with left := .constant (.int 0) }

/-! ### The two tokens -/

theorem no_count : ∀ count ∈ (none : Option UInt32), 0 < count := by
  rintro _ ⟨⟩

/-- The duration in front of the second comparison. -/
def counts : Counts where
  seconds := some shorthand.seconds
  dots := none
  parenthesis := none
  dotsFirst := false
  secondsPositive := by rintro _ ⟨⟩; exact shorthand.positive
  dotsPositive := no_count

/-- The second one of the two tokens. -/
def timed : List Char :=
  decimal shorthand.seconds.toNat ++ 'S' :: writeComparison shorthand.lasting

theorem timed_eq : shorthand.timed = writeToken .plain shorthand.counts shorthand.lasting := by
  simp [timed, writeToken, writeFlag, Flag.letter?, counts, Counts.leading, Counts.trailing,
    marked_count_none]

theorem read_timed (framesPerSecond : UInt32) :
    readToken framesPerSecond shorthand.timed =
      ({ shorthand.lasting.settled with
          target := framesIn framesPerSecond shorthand.seconds.toNat }, none) := by
  have frames : shorthand.counts.target framesPerSecond =
      framesIn framesPerSecond shorthand.seconds.toNat :=
    ranked_alone _
  rw [timed_eq, read_token, frames]
  rfl

theorem write_number :
    writeOperand (.constant (.int (Int64.ofNat shorthand.seconds.toNat))) =
      decimal shorthand.seconds.toNat := by
  have small : shorthand.seconds.toNat < 2 ^ 63 := by
    have atMost := shorthand.small
    rw [limit63] at atMost
    omega
  have exact : (Int64.ofNat shorthand.seconds.toNat).toInt = shorthand.seconds.toNat :=
    Int64.toInt_ofNat_of_lt small
  rw [write_integer, exact, signedDecimal, if_neg (Int.not_lt.mpr (Int.natCast_nonneg _)),
    Int.natAbs_natCast]

theorem write_reached : writeComparison shorthand.reached =
    writeOperand shorthand.left ++ shorthand.first.symbol ++ decimal shorthand.seconds.toNat := by
  rw [← write_number]
  rfl

theorem write_clause_of_reached : writeClause shorthand.reached = "N:".toList ++
    (writeOperand shorthand.left ++ shorthand.first.symbol ++ decimal shorthand.seconds.toNat) := by
  rw [← write_reached]
  exact List.append_nil _

theorem apart_eq : shorthand.apart =
    String.ofList (writeClause shorthand.reached ++ '_' :: shorthand.timed) := by
  apply congrArg String.ofList
  rw [write_clause_of_reached, timed, writeComparison, lasting]
  simp only [List.append_assoc, List.cons_append]

theorem read_apart (framesPerSecond : UInt32) :
    read framesPerSecond shorthand.apart = shorthand.meant framesPerSecond := by
  have first : tokens (writeClause shorthand.reached) = [writeClause shorthand.reached] := by
    rw [write_clause_eq]
    exact tokens_of_token _ _ _
  have second : tokens shorthand.timed = [shorthand.timed] := by
    rw [timed_eq]
    exact tokens_of_token _ _ _
  rw [read, apart_eq, String.toList_ofList, tokens_joined, first, second, List.singleton_append,
    List.flatMap_cons, List.flatMap_singleton,
    read_clauses_of_last (read_written_clause framesPerSecond _),
    read_clauses_of_last (shorthand.read_timed framesPerSecond)]
  rfl

/-! ### The one token -/

/-- What stands between the comparisons. -/
def between : List Char :=
  decimal shorthand.seconds.toNat ++ 'S' :: writeOperand shorthand.middle

/-- The characters of the one token. -/
def work : List Char :=
  writeOperand shorthand.left ++ (shorthand.first.symbol ++
    (shorthand.between ++ (shorthand.second.symbol ++ writeOperand shorthand.right)))

theorem joined_eq : shorthand.joined = String.ofList shorthand.work := by
  rw [joined, work, between]
  simp only [List.append_assoc, List.cons_append]

theorem timed_of_between : shorthand.timed =
    shorthand.between ++ (shorthand.second.symbol ++ writeOperand shorthand.right) := by
  rw [timed, between, writeComparison, lasting]
  simp only [List.append_assoc, List.cons_append]

theorem between_chars : ∀ c ∈ shorthand.between, isOperandChar c = true := by
  intro c member
  rcases List.mem_append.mp member with digit | later
  · have alphanum := alphanum_of_digit (digit_of_mem_decimal _ c digit)
    simp [isOperandChar, alphanum]
  · rcases List.mem_cons.mp later with rfl | inMiddle
    · rfl
    · exact operand_chars shorthand.middle c inMiddle

theorem between_plain : ∀ c ∈ shorthand.between, c ∉ operatorChars := by
  intro c member operator
  exact operand_char_ne (shorthand.between_chars c member) (operator_outside c operator) rfl

theorem between_ne_nil : shorthand.between ≠ [] :=
  List.append_ne_nil_of_right_ne_nil _ (List.cons_ne_nil _ _)

theorem work_ne {mark : Char} (outside : isOperandChar mark = false)
    (noOperator : mark ∉ operatorChars) : mark ∉ shorthand.work := by
  intro member
  simp only [work, List.mem_append] at member
  rcases member with inLeft | inSymbol | inBetween | inSymbol | inRight
  · exact operand_char_ne (operand_chars shorthand.left mark inLeft) outside rfl
  · exact noOperator (symbol_chars _ mark inSymbol)
  · exact operand_char_ne (shorthand.between_chars mark inBetween) outside rfl
  · exact noOperator (symbol_chars _ mark inSymbol)
  · exact operand_char_ne (operand_chars shorthand.right mark inRight) outside rfl

theorem work_last : ∀ c ∈ shorthand.work.getLast?, c.isAlphanum = true := by
  have filled := (operand_start shorthand.right).ne_nil
  intro c last
  rw [work, ← List.append_assoc, ← List.append_assoc, ← List.append_assoc,
    last_of_append _ filled] at last
  exact operand_last shorthand.right c last

theorem tokens_of_work : tokens shorthand.work = [shorthand.work] := by
  have start := operand_start shorthand.left
  apply tokens_alone
  · exact List.append_ne_nil_of_left_ne_nil start.ne_nil _
  · exact shorthand.work_ne rfl (by decide)
  · apply trim_eq
    · rw [work, List.head?_append_of_ne_nil _ start.ne_nil]
      exact start.head_visible
    · exact fun c last => visible_of_alphanum (shorthand.work_last c last)

theorem read_work_token (framesPerSecond : UInt32) :
    readToken framesPerSecond shorthand.work = readWork framesPerSecond .plain 0 shorthand.work := by
  have flag : takeFlag shorthand.work = (.plain, shorthand.work) :=
    take_flag .plain (shorthand.work_ne rfl (by decide))
  have duration : readDuration? shorthand.work = none := by
    apply no_duration (operand_start shorthand.left)
    cases shorthand.first <;> (rintro c ⟨⟩; decide)
  rw [read_token_eq, flag, duration]

theorem read_body_of_reached :
    readBody .andNext 0 (writeComparison shorthand.reached) = shorthand.reached.settled := by
  have body := read_body .andNext (.ofTarget 0) shorthand.reached 0
  have trailing : (Counts.ofTarget 0).trailing = [] := rfl
  rw [trailing, List.append_nil] at body
  rw [body]
  rfl

theorem embedded_in_order
    (inOrder : searchOrder.idxOf shorthand.first ≤ searchOrder.idxOf shorthand.second) :
    findEmbedded? shorthand.work = some ⟨writeComparison shorthand.reached,
      shorthand.seconds.toNat, writeComparison shorthand.lasting⟩ := by
  have found : findComparison? shorthand.work =
      some ⟨writeOperand shorthand.left, shorthand.first, shorthand.timed⟩ := by
    rw [timed_of_between]
    exact find_first (operand_start shorthand.left).ne_nil shorthand.between_ne_nil
      (operand_plain shorthand.left) shorthand.between_plain (operand_plain shorthand.right)
      shorthand.first shorthand.second inOrder
  have duration := duration_some shorthand.positive (first_of_comparison shorthand.lasting)
  have trimmed : trimEnd (writeComparison shorthand.lasting) = writeComparison shorthand.lasting :=
    trim_end_eq fun c last => visible_of_alphanum (last_of_comparison shorthand.lasting c last)
  simp only [findEmbedded?, found, timed, duration, trimmed, write_reached]

theorem read_in_order (framesPerSecond : UInt32)
    (inOrder : searchOrder.idxOf shorthand.first ≤ searchOrder.idxOf shorthand.second) :
    read framesPerSecond shorthand.joined = shorthand.meant framesPerSecond := by
  have filled : (writeComparison shorthand.lasting).isEmpty = false := by
    rw [Bool.eq_false_iff, ne_eq, List.isEmpty_iff]
    exact comparison_ne_nil shorthand.lasting
  have divided : readToken framesPerSecond shorthand.work =
      (shorthand.reached.settled, some shorthand.timed) := by
    rw [read_work_token, readWork, shorthand.embedded_in_order inOrder]
    simp only [filled, Bool.false_eq_true, if_false, if_true, read_body_of_reached, timed]
  rw [read, joined_eq, String.toList_ofList, tokens_of_work, List.flatMap_singleton,
    read_clauses_of_split divided, read_clauses_of_last (shorthand.read_timed framesPerSecond)]
  rfl

theorem read_out_of_order (framesPerSecond : UInt32)
    (outOfOrder : searchOrder.idxOf shorthand.second < searchOrder.idxOf shorthand.first) :
    read framesPerSecond shorthand.joined = [shorthand.misread] := by
  have found : findComparison? shorthand.work =
      some ⟨writeOperand shorthand.left ++ (shorthand.first.symbol ++ shorthand.between),
        shorthand.second, writeOperand shorthand.right⟩ :=
    find_second (operand_start shorthand.left).ne_nil shorthand.between_ne_nil
      (operand_plain shorthand.left) shorthand.between_plain (operand_plain shorthand.right)
      shorthand.first shorthand.second outOfOrder
  have noDuration : readDuration? (writeOperand shorthand.right) = none := by
    have alone : readDuration? (writeOperand shorthand.right ++ []) = none :=
      no_duration (operand_start shorthand.right) (by rintro c ⟨⟩)
    rwa [List.append_nil] at alone
  have zero : readOperand (writeOperand shorthand.left ++
      (shorthand.first.symbol ++ shorthand.between)) = .constant (.int 0) := by
    obtain ⟨mark, more, symbol, operator⟩ := symbol_ne_nil shorthand.first
    exact (operator_foreign mark operator).read_operand (by simp [symbol])
  have hits : takeHits 0 shorthand.work = (0, shorthand.work) := by
    have taken := (Counts.ofTarget 0).take_hits 0 shorthand.work_last
    have trailing : (Counts.ofTarget 0).trailing = [] := rfl
    rwa [trailing, List.append_nil] at taken
  have body : readBody .plain 0 shorthand.work = shorthand.misread := by
    simp only [readBody, hits, found, zero, read_write_operand]
    rfl
  have last : readToken framesPerSecond shorthand.work = (shorthand.misread, none) := by
    have embedded : findEmbedded? shorthand.work = none := by
      simp only [findEmbedded?, found, noDuration]
    rw [read_work_token, readWork, embedded, body]
  rw [read, joined_eq, String.toList_ofList, tokens_of_work, List.flatMap_singleton,
    read_clauses_of_last last]

end Shorthand

/-- One token means the two if and only if the comparison that is to hold for a while is not looked for
before the one with the number. If it is, all that is in front of it is read as zero. -/
theorem duration_divides_iff (framesPerSecond : UInt32) (shorthand : Shorthand) :
    read framesPerSecond shorthand.apart = shorthand.meant framesPerSecond ∧
      read framesPerSecond shorthand.joined =
        (if searchOrder.idxOf shorthand.first ≤ searchOrder.idxOf shorthand.second then
          shorthand.meant framesPerSecond
        else [shorthand.misread]) ∧
      (read framesPerSecond shorthand.joined = read framesPerSecond shorthand.apart ↔
        searchOrder.idxOf shorthand.first ≤ searchOrder.idxOf shorthand.second) := by
  have apart := shorthand.read_apart framesPerSecond
  by_cases inOrder : searchOrder.idxOf shorthand.first ≤ searchOrder.idxOf shorthand.second
  · have joined := shorthand.read_in_order framesPerSecond inOrder
    rw [if_pos inOrder, apart, joined]
    exact ⟨rfl, rfl, fun _ => inOrder, fun _ => rfl⟩
  · have joined := shorthand.read_out_of_order framesPerSecond (Nat.lt_of_not_le inOrder)
    rw [if_neg inOrder, apart, joined]
    exact ⟨rfl, rfl, fun same => by simp [Shorthand.meant] at same,
      fun holds => absurd holds inOrder⟩

/-- An equality, and a difference that is looked for before it. -/
def crossed : Shorthand where
  left := .memory { encoding := .byte, address := 1 }
  first := .eq
  seconds := 3
  middle := .memory { encoding := .byte, address := 2 }
  second := .ne
  right := .constant (.int 4)
  positive := by decide
  small := by decide

/-- The cell that should be three is not read at all. -/
theorem crossed_comparisons_are_misread :
    crossed.joined = "0xH0001=3S0xH0002!=4" ∧ crossed.apart = "N:0xH0001=3_3S0xH0002!=4" ∧
      read 60 crossed.joined =
        [{ flag := .plain, left := .constant (.int 0), comparison := .ne
           right := .constant (.int 4) }] ∧
      (read 60 crossed.apart).map Clause.left =
        [.memory { encoding := .byte, address := 1 }, .memory { encoding := .byte, address := 2 }] ∧
      read 60 crossed.joined ≠ read 60 crossed.apart := by
  have joined : read 60 crossed.joined =
      [{ flag := .plain, left := .constant (.int 0), comparison := .ne
         right := .constant (.int 4) }] :=
    read_of_last (show tokens crossed.joined.toList = [crossed.joined.toList] by decide)
      (by with_unfolding_all rfl)
  have lefts : (read 60 crossed.apart).map Clause.left =
      [.memory { encoding := .byte, address := 1 }, .memory { encoding := .byte, address := 2 }] := by
    rw [crossed.read_apart]
    rfl
  refine ⟨by decide, by decide, joined, lefts, fun same => ?_⟩
  rw [← same, joined] at lefts
  cases lefts

end Achievements.Formula
