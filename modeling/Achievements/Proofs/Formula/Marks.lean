import Achievements.Proofs.Formula.Operands

/-!
# What the reader finds

Comparisons, durations and numbers of hits are found where they were written, and are not found where
none was written, as the characters at the place in question tell.
-/

set_option autoImplicit false

namespace Achievements.Formula

open Text

/-! ## Comparisons -/

theorem cut_none {symbol text : List Char} {c : Char} (inSymbol : c ∈ symbol) (absent : c ∉ text) :
    cutAt? symbol text = none := by
  induction text with
  | nil => rfl
  | cons head rest ih =>
      have later := ih fun inRest => absent (List.mem_cons_of_mem _ inRest)
      rw [cutAt?, later, if_neg]
      · rfl
      · intro starts
        exact absent ((List.isPrefixOf_iff_prefix.mp starts).subset inSymbol)

/-- The search goes past a text that no occurrence of the symbol starts in. -/
theorem cut_past {symbol before rest : List Char}
    (past : ∀ part ≠ [], part <:+ before → ¬symbol <+: part ++ rest) :
    cutAt? symbol (before ++ rest) =
      (cutAt? symbol rest).map fun (front, back) => (before ++ front, back) := by
  induction before with
  | nil => exact Option.map_id'.symm
  | cons head before ih =>
      have later := ih fun part filled ends => past part filled (ends.trans (List.suffix_cons _ _))
      have notHere := past (head :: before) (List.cons_ne_nil _ _) List.suffix_rfl
      rw [List.cons_append, cutAt?, later, if_neg, Option.map_map]
      · rfl
      · rwa [List.isPrefixOf_iff_prefix]

theorem cut_here (c : Char) (symbol after : List Char) :
    cutAt? (c :: symbol) (c :: symbol ++ after) = some ([], after) := by
  rw [List.cons_append, cutAt?, if_pos]
  · simp
  · rw [List.isPrefixOf_iff_prefix, ← List.cons_append]
    exact List.prefix_append _ _

def operatorChars : List Char := ['=', '!', '<', '>']

theorem symbol_chars (comparison : Comparison) : ∀ c ∈ comparison.symbol, c ∈ operatorChars := by
  cases comparison <;> exact check_chars _ _ rfl

section Symbols

variable (comparison : Comparison) {before rest : List Char}

theorem symbol_ne_nil : ∃ c more, comparison.symbol = c :: more ∧ c ∈ operatorChars := by
  cases comparison <;> exact ⟨_, _, rfl, by decide⟩

theorem cut_behind (plain : ∀ c ∈ before, c ∉ operatorChars) :
    cutAt? comparison.symbol (before ++ rest) =
      (cutAt? comparison.symbol rest).map fun (front, back) => (before ++ front, back) := by
  obtain ⟨mark, more, symbol, operator⟩ := symbol_ne_nil comparison
  apply cut_past
  intro part filled ends starts
  obtain ⟨c, part, rfl⟩ := List.exists_cons_of_ne_nil filled
  rw [symbol, List.cons_append, List.cons_prefix_cons] at starts
  exact plain c (ends.subset List.mem_cons_self) (starts.1 ▸ operator)

theorem cut_at_symbol (plain : ∀ c ∈ before, c ∉ operatorChars) :
    cutAt? comparison.symbol (before ++ (comparison.symbol ++ rest)) = some (before, rest) := by
  obtain ⟨c, more, symbol, -⟩ := symbol_ne_nil comparison
  rw [cut_behind comparison plain, symbol, cut_here, Option.map_some]
  simp only [List.append_nil]

theorem cut_none_of_plain (plain : ∀ c ∈ rest, c ∉ operatorChars) :
    cutAt? comparison.symbol rest = none := by
  obtain ⟨c, more, symbol, operator⟩ := symbol_ne_nil comparison
  exact cut_none (symbol ▸ List.mem_cons_self) fun inRest => plain c inRest operator

/-- A symbol is not found in one that does not contain it, nor across the end of that one. -/
theorem cut_across {other : Comparison} (absent : ¬other.symbol <:+: comparison.symbol)
    (next : ∀ c ∈ rest.head?, c ∉ operatorChars) :
    cutAt? other.symbol (comparison.symbol ++ rest) =
      (cutAt? other.symbol rest).map fun (front, back) => (comparison.symbol ++ front, back) := by
  apply cut_past
  intro part filled ends starts
  rcases List.prefix_or_prefix_of_prefix starts (List.prefix_append part rest) with inside | beyond
  · exact absent (inside.isInfix.trans ends.isInfix)
  · obtain ⟨more, symbol⟩ := beyond
    rw [← symbol, List.prefix_append_right_inj] at starts
    cases more with
    | nil =>
        rw [List.append_nil] at symbol
        exact absent (symbol ▸ ends.isInfix)
    | cons mark more =>
        have operator := symbol_chars other mark (by simp [← symbol])
        obtain ⟨later, rfl⟩ := starts
        exact next mark rfl operator

end Symbols

/-- A symbol that is looked for earlier than another one is no part of it. -/
theorem no_part_of_later {earlier comparison : Comparison}
    (before : searchOrder.idxOf earlier < searchOrder.idxOf comparison) :
    ¬earlier.symbol <:+: comparison.symbol := by
  revert before
  cases earlier <;> cases comparison <;> decide

theorem search_order_split (comparison : Comparison) : ∃ earlier later,
    searchOrder = earlier ++ comparison :: later ∧
      ∀ other ∈ earlier, searchOrder.idxOf other < searchOrder.idxOf comparison := by
  cases comparison with
  | ne => exact ⟨[], _, rfl, by decide⟩
  | ge => exact ⟨[.ne], _, rfl, by decide⟩
  | le => exact ⟨[.ne, .ge], _, rfl, by decide⟩
  | eq => exact ⟨[.ne, .ge, .le], _, rfl, by decide⟩
  | gt => exact ⟨[.ne, .ge, .le, .eq], _, rfl, by decide⟩
  | lt => exact ⟨[.ne, .ge, .le, .eq, .gt], _, rfl, by decide⟩

/-- The first comparison of the search order that occurs is the one that is found. -/
theorem find_of_cut {comparison : Comparison} {text before after : List Char}
    (nonempty : before ≠ []) (found : cutAt? comparison.symbol text = some (before, after))
    (passed : ∀ other, searchOrder.idxOf other < searchOrder.idxOf comparison →
      cutAt? other.symbol text = none) :
    findComparison? text = some ⟨before, comparison, after⟩ := by
  obtain ⟨earlier, later, order, sooner⟩ := search_order_split comparison
  have filled : before.isEmpty = false := by
    rw [Bool.eq_false_iff, ne_eq, List.isEmpty_iff]
    exact nonempty
  rw [findComparison?, order, List.findSome?_append, List.findSome?_cons, found]
  rw [List.findSome?_eq_none_iff.mpr fun other inEarlier => by
    rw [passed other (sooner other inEarlier)]]
  simp [filled]

/-- A comparison is found where it was written, if there is no other one. -/
theorem find_comparison (comparison : Comparison) {before after : List Char}
    (nonempty : before ≠ []) (plainBefore : ∀ c ∈ before, c ∉ operatorChars)
    (plainAfter : ∀ c ∈ after, c ∉ operatorChars) :
    findComparison? (before ++ (comparison.symbol ++ after)) =
      some ⟨before, comparison, after⟩ := by
  apply find_of_cut nonempty (cut_at_symbol comparison plainBefore)
  intro other sooner
  have next : ∀ c ∈ after.head?, c ∉ operatorChars :=
    fun c first => plainAfter c (List.mem_of_mem_head? first)
  rw [cut_behind other plainBefore, cut_across comparison (no_part_of_later sooner) next,
    cut_none_of_plain other plainAfter]
  rfl

section TwoComparisons

variable {before between after : List Char} (nonempty : before ≠ []) (filled : between ≠ [])
  (plainBefore : ∀ c ∈ before, c ∉ operatorChars) (plainBetween : ∀ c ∈ between, c ∉ operatorChars)
  (plainAfter : ∀ c ∈ after, c ∉ operatorChars) (first second : Comparison)
include nonempty filled plainBefore plainBetween plainAfter

/-- Of two comparisons the first one is found, unless the second one is looked for earlier. -/
theorem find_first (inOrder : searchOrder.idxOf first ≤ searchOrder.idxOf second) :
    findComparison? (before ++ (first.symbol ++ (between ++ (second.symbol ++ after)))) =
      some ⟨before, first, between ++ (second.symbol ++ after)⟩ := by
  apply find_of_cut nonempty (cut_at_symbol first plainBefore)
  intro other sooner
  have nextBetween : ∀ c ∈ (between ++ (second.symbol ++ after)).head?, c ∉ operatorChars := by
    rw [List.head?_append_of_ne_nil _ filled]
    exact fun c head => plainBetween c (List.mem_of_mem_head? head)
  have nextAfter : ∀ c ∈ after.head?, c ∉ operatorChars :=
    fun c head => plainAfter c (List.mem_of_mem_head? head)
  rw [cut_behind other plainBefore, cut_across first (no_part_of_later sooner) nextBetween,
    cut_behind other plainBetween,
    cut_across second (no_part_of_later (Nat.lt_of_lt_of_le sooner inOrder)) nextAfter,
    cut_none_of_plain other plainAfter]
  rfl

theorem find_second (outOfOrder : searchOrder.idxOf second < searchOrder.idxOf first) :
    findComparison? (before ++ (first.symbol ++ (between ++ (second.symbol ++ after)))) =
      some ⟨before ++ (first.symbol ++ between), second, after⟩ := by
  have nextBetween : ∀ c ∈ (between ++ (second.symbol ++ after)).head?, c ∉ operatorChars := by
    rw [List.head?_append_of_ne_nil _ filled]
    exact fun c head => plainBetween c (List.mem_of_mem_head? head)
  have nextAfter : ∀ c ∈ after.head?, c ∉ operatorChars :=
    fun c head => plainAfter c (List.mem_of_mem_head? head)
  apply find_of_cut (List.append_ne_nil_of_left_ne_nil nonempty _)
  · rw [cut_behind second plainBefore, cut_across first (no_part_of_later outOfOrder) nextBetween,
      cut_at_symbol second plainBetween]
    rfl
  · intro other sooner
    rw [cut_behind other plainBefore,
      cut_across first (no_part_of_later (Nat.lt_trans sooner outOfOrder)) nextBetween,
      cut_behind other plainBetween, cut_across second (no_part_of_later sooner) nextAfter,
      cut_none_of_plain other plainAfter]
    rfl

end TwoComparisons

/-! ## Durations -/

theorem duration_none {text : List Char} (first : ∀ c ∈ text.head?, isBlank c = false)
    (next : ∀ c ∈ (text.dropWhile Char.isDigit).head?, c ≠ 'S' ∧ c ≠ 's') :
    readDuration? text = none := by
  rw [readDuration?]
  simp only [trim_start_eq first]
  split
  · rfl
  · rename_i c rest dropped
    rw [dropped] at next
    have other := next c rfl
    rw [if_neg]
    intro seconds
    exact seconds.1.elim other.1 other.2

/-- No operand starts with a duration. -/
theorem no_duration {text rest : List Char} (start : OperandStart text)
    (after : ∀ c ∈ rest.head?, c.isDigit = false ∧ c ≠ 'S' ∧ c ≠ 's') :
    readDuration? (text ++ rest) = none := by
  apply duration_none
  · intro c first
    rw [List.head?_append, List.head?_eq_some_head start.ne_nil, Option.some_or] at first
    exact start.head_visible c (by rw [List.head?_eq_some_head start.ne_nil]; exact first)
  · cases start with
    | decimal nonempty digits =>
        rw [List.dropWhile_append_of_pos digits]
        cases rest with
        | nil => rintro c ⟨⟩
        | cons c rest =>
            have other := after c rfl
            rw [List.dropWhile_cons_of_neg (by simp [other.1])]
            rintro c ⟨⟩
            exact other.2
    | marked marked =>
        have mark : ∀ c ∈ ['.', 'e'], c.isDigit = false ∧ c ≠ 'S' ∧ c ≠ 's' := check_chars _ _ rfl
        have other := mark _ (List.mem_pair.mpr marked.is_mark)
        rw [List.append_assoc, List.dropWhile_append_of_pos marked.are_digits, List.cons_append,
          List.dropWhile_cons_of_neg (by simp [other.1])]
        rintro c ⟨⟩
        exact other.2
    | letter first =>
        have other := check_chars _ (fun c => c.isDigit = false ∧ c ≠ 'S' ∧ c ≠ 's') rfl _ first
        rw [List.cons_append, List.dropWhile_cons_of_neg (by simp [other.1])]
        rintro c ⟨⟩
        exact other.2
    | tagged =>
        rw [List.cons_append, List.dropWhile_cons_of_pos (by decide), List.cons_append,
          List.dropWhile_cons_of_neg (by decide)]
        rintro c ⟨⟩
        decide

theorem duration_some {seconds : UInt64} (positive : 0 < seconds) {rest : List Char}
    (first : ∀ c ∈ rest.head?, isBlank c = false) :
    readDuration? (decimal seconds.toNat ++ 'S' :: rest) =
      some ⟨seconds.toNat, decimal seconds.toNat, rest⟩ := by
  have digits := digit_of_mem_decimal seconds.toNat
  have visible : ∀ c ∈ (decimal seconds.toNat ++ 'S' :: rest).head?, isBlank c = false := by
    intro c start
    have nonempty : decimal seconds.toNat ≠ [] := Nat.toDigits_ne_nil
    rw [List.head?_append_of_ne_nil _ nonempty] at start
    exact visible_of_alphanum (alphanum_of_digit (digits c (List.mem_of_mem_head? start)))
  have small : seconds.toNat ≤ limit64 := Nat.le_of_lt_succ seconds.toNat_lt
  have positiveToo : 0 < seconds.toNat := UInt64.lt_iff_toNat_lt.mp positive
  rw [readDuration?]
  simp only [trim_start_eq visible, List.dropWhile_append_of_pos digits,
    List.takeWhile_append_of_pos digits]
  simp [read_nat_decimal, Nat.min_eq_right small, positiveToo, trim_start_eq first]

/-! ## Numbers of hits -/

theorem read_count (count : UInt32) :
    readUnsigned? 10 limit32 (decimal count.toNat) = some count.toNat :=
  read_unsigned_eq (fun plus => of_mem_decimal (· ≠ '+') _ (by decide) plus rfl)
    (read_nat_decimal _) (Nat.le_of_lt_succ count.toNat_lt)

/-- A number of hits between two marks, if there is one. -/
def markedCount (opening closing : Char) (count : Option UInt32) : List Char :=
  match count with
  | some count => opening :: decimal count.toNat ++ [closing]
  | none => []

theorem marked_count_none (opening closing : Char) : markedCount opening closing none = [] := rfl

theorem marked_count_chars (opening closing : Char) (count : Option UInt32) :
    ∀ c ∈ markedCount opening closing count, c = opening ∨ c = closing ∨ c.isDigit = true := by
  intro c member
  cases count with
  | none => cases member
  | some count =>
      rcases List.mem_append.mp member with front | last
      · rcases List.mem_cons.mp front with first | digit
        · exact Or.inl first
        · exact Or.inr (Or.inr (digit_of_mem_decimal _ c digit))
      · exact Or.inr (Or.inl (List.mem_singleton.mp last))

theorem marked_count_first (opening closing : Char) (count : Option UInt32) :
    ∀ c ∈ (markedCount opening closing count).head?, c = opening := by
  cases count <;> rintro c ⟨⟩
  rfl

theorem last_of_marked_count (text : List Char) (opening closing : Char) (count : Option UInt32) :
    ∀ c ∈ (text ++ markedCount opening closing count).getLast?, c ∈ text.getLast? ∨ c = closing := by
  intro c last
  cases count with
  | none =>
      rw [markedCount, List.append_nil] at last
      exact Or.inl last
  | some count =>
      rw [markedCount, ← List.append_assoc] at last
      exact Or.inr (List.mem_singleton.mp (mem_of_last (List.cons_ne_nil _ _) last))

theorem ne_of_alphanum {text : List Char} {mark : Char}
    (last : ∀ c ∈ text.getLast?, c.isAlphanum = true) (noMark : mark.isAlphanum = false) :
    ∀ c ∈ text.getLast?, c ≠ mark := by
  rintro c inLast rfl
  rw [last c inLast] at noMark
  cases noMark

theorem dot_hits_none {text : List Char} (last : ∀ c ∈ text.getLast?, c ≠ '.') :
    takeDotHits? text = none := by
  unfold takeDotHits?
  split
  · rename_i reversed
    have dot : '.' ∈ text.getLast? := by rw [← List.head?_reverse, reversed]; rfl
    exact absurd rfl (last '.' dot)
  · rfl

theorem take_dot_hits {text : List Char} {count : Option UInt32}
    (positive : ∀ hits ∈ count, 0 < hits) (last : ∀ c ∈ text.getLast?, c ≠ '.') :
    takeDotHits? (text ++ markedCount '.' '.' count) = count.map (·, text) := by
  cases count with
  | none =>
      rw [markedCount, List.append_nil]
      exact dot_hits_none last
  | some count =>
      have digits : ∀ c ∈ (decimal count.toNat).reverse, c.isDigit = true :=
        fun c member => digit_of_mem_decimal _ c (List.mem_reverse.mp member)
      have reversed : (text ++ markedCount '.' '.' (some count)).reverse =
          '.' :: ((decimal count.toNat).reverse ++ '.' :: text.reverse) := by simp [markedCount]
      have positiveToo : 0 < count.toNat := UInt32.lt_iff_toNat_lt.mp (positive count rfl)
      rw [takeDotHits?, reversed]
      simp only [List.dropWhile_append_of_pos digits, List.takeWhile_append_of_pos digits]
      simp [read_count, positiveToo]

theorem parenthesis_none {text : List Char} (last : ∀ c ∈ text.getLast?, c ≠ ')') :
    takeParenthesis text = (none, text) := by
  unfold takeParenthesis
  split
  · rename_i reversed
    have closing : ')' ∈ text.getLast? := by rw [← List.head?_reverse, reversed]; rfl
    exact absurd rfl (last ')' closing)
  · rfl

theorem take_parenthesis {text : List Char} (count : Option UInt32)
    (last : ∀ c ∈ text.getLast?, c ≠ ')') :
    takeParenthesis (text ++ markedCount '(' ')' count) = (count, text) := by
  cases count with
  | none =>
      rw [markedCount, List.append_nil]
      exact parenthesis_none last
  | some count =>
      have inner : ∀ c ∈ (decimal count.toNat).reverse, (c != '(') = true := by
        intro c member
        rw [bne_iff_ne]
        exact of_mem_decimal (· ≠ '(') _ (by decide) (List.mem_reverse.mp member)
      have trimmed : trim (decimal count.toNat) = decimal count.toNat :=
        trim_of_no_blanks fun c member => of_mem_decimal (isBlank · = false) _ (by decide) member
      have reversed : (text ++ markedCount '(' ')' (some count)).reverse =
          ')' :: ((decimal count.toNat).reverse ++ '(' :: text.reverse) := by simp [markedCount]
      rw [takeParenthesis, reversed]
      simp only [List.dropWhile_append_of_pos inner, List.takeWhile_append_of_pos inner]
      simp [trimmed, read_count]

/-- The first of these numbers that is not zero. -/
def ranked (parenthesis : Option UInt32) (duration : UInt32) (dots : Option UInt32) : UInt32 :=
  ([parenthesis.getD 0, duration, dots.getD 0].find? (0 < ·)).getD 0

theorem ranked_alone (duration : UInt32) : ranked none duration none = duration := by
  by_cases positive : 0 < duration
  · simp [ranked, positive]
  · have zero : duration = 0 := by simpa using positive
    rw [zero]
    rfl

section Hits

variable (duration : UInt32) {text : List Char} (last : ∀ c ∈ text.getLast?, c.isAlphanum = true)
  {dots : Option UInt32} (positive : ∀ hits ∈ dots, 0 < hits)
include last positive

theorem take_hits_dots_last (parenthesis : Option UInt32) :
    takeHits duration
        (text ++ (markedCount '(' ')' parenthesis ++ markedCount '.' '.' dots)) =
      (ranked parenthesis duration dots, text) := by
  have noDot := ne_of_alphanum last (show Char.isAlphanum '.' = false from rfl)
  have notClosed := ne_of_alphanum last (show Char.isAlphanum ')' = false from rfl)
  have noDotAfter : ∀ c ∈ (text ++ markedCount '(' ')' parenthesis).getLast?, c ≠ '.' := by
    intro c inLast
    rcases last_of_marked_count _ _ _ _ c inLast with inLast | rfl
    · exact noDot c inLast
    · decide
  rw [takeHits, ← List.append_assoc]
  simp only [take_dot_hits positive noDotAfter]
  cases dots with
  | some hits => simp only [Option.map_some, take_parenthesis parenthesis notClosed, ranked]
  | none =>
      simp only [Option.map_none, marked_count_none, List.append_nil,
        take_parenthesis parenthesis notClosed, dot_hits_none noDot, ranked]

/-- The number between dots is found only when the one in parentheses is gone. -/
theorem take_hits_dots_first (count : UInt32) :
    takeHits duration
        (text ++ (markedCount '.' '.' dots ++ markedCount '(' ')' (some count))) =
      (ranked (some count) duration dots, text) := by
  have noDot := ne_of_alphanum last (show Char.isAlphanum '.' = false from rfl)
  have notClosed : ∀ c ∈ (text ++ markedCount '.' '.' dots).getLast?, c ≠ ')' := by
    intro c inLast
    rcases last_of_marked_count _ _ _ _ c inLast with inLast | rfl
    · exact ne_of_alphanum last rfl c inLast
    · decide
  have hidden : takeDotHits? (text ++ markedCount '.' '.' dots ++ markedCount '(' ')' (some count)) =
      none := by
    apply dot_hits_none
    intro c inLast
    rw [markedCount, ← List.append_assoc (text ++ _)] at inLast
    rw [List.mem_singleton.mp (mem_of_last (List.cons_ne_nil _ _) inLast)]
    decide
  rw [takeHits, ← List.append_assoc]
  simp only [hidden, take_parenthesis (some count) notClosed, take_dot_hits positive noDot]
  cases dots with
  | some hits => rfl
  | none => simp only [Option.map_none, marked_count_none, List.append_nil, ranked]

end Hits

end Achievements.Formula
