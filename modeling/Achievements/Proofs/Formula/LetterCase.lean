import Achievements.Proofs.Formula.Tokens
import Achievements.Proofs.Text.Letters

/-!
# The case of letters in formulas

A formula may be written in letters of either case. Each part of the reader gives the same for a text
and for the text in lower case, or gives the rest of the one in lower case where it leaves a rest.
The marks that it looks for are no letters, or are looked for in both cases.

What is left of a token that is split starts with a capital S in any case, so tokens are compared up
to case and not with their lower case: `Formula.read_clauses_same` is an induction on the length of
the token.
-/

set_option autoImplicit false

namespace Achievements

namespace Formula

open Text

/-! ## Operands -/

theorem read_fraction_lower (negative : Bool) (text : List Char) :
    readFraction? negative (lower text) = readFraction? negative text := by
  rw [readFraction?, readFraction?, drop_while_lower is_digit_lower, take_while_lower is_digit_lower]
  cases text.dropWhile Char.isDigit with
  | nil => rfl
  | cons c fraction =>
      have digits : (lower fraction).all Char.isDigit = fraction.all Char.isDigit := by
        rw [lower, List.all_map, (funext is_digit_lower : Char.isDigit ∘ Char.toLower = _)]
      have length : (lower fraction).length = fraction.length := List.length_map _
      by_cases point : c = '.'
      · subst point
        simp only [lower_cons, show '.'.toLower = '.' from rfl, lower_is_empty, digits, length,
          ← lower_append, read_digits_lower]
      · have other : c.toLower ≠ '.' := fun same => point ((lower_eq_iff rfl).mp same)
        simp [point, other]

theorem read_magnitude_lower (negative : Bool) (base : Nat) (text : List Char) :
    readMagnitude? negative base (lower text) = readMagnitude? negative base text := by
  rw [readMagnitude?, read_nat_lower, readMagnitude?]

theorem read_unsigned_literal_cons (negative : Bool) (c d : Char) (text : List Char) :
    readUnsignedLiteral? negative (c :: d :: text) =
      if c = '0' ∧ (d = 'x' ∨ d = 'X') then readMagnitude? negative 16 text
      else (readFraction? negative (c :: d :: text)).or
        (readMagnitude? negative 10 (c :: d :: text)) := by
  unfold readUnsignedLiteral?
  split
  · rename_i rest tagged
    cases tagged
    rfl
  · rename_i rest tagged
    cases tagged
    rfl
  · rename_i small capital
    rw [if_neg]
    rintro ⟨rfl, rfl | rfl⟩
    · exact small text rfl
    · exact capital text rfl

theorem read_unsigned_literal_lower (negative : Bool) (text : List Char) :
    readUnsignedLiteral? negative (lower text) = readUnsignedLiteral? negative text := by
  have fraction := read_fraction_lower negative text
  have magnitude := read_magnitude_lower negative 10 text
  match text with
  | [] => rfl
  | [c] =>
      simp only [lower_cons, lower_nil] at fraction magnitude
      simp [readUnsignedLiteral?, fraction, magnitude]
  | c :: d :: text =>
      have tagged := of_lower (fun d => decide (d = 'x' ∨ d = 'X')) rfl d
      rw [decide_eq_decide] at tagged
      simp only [lower_cons] at fraction magnitude ⊢
      simp only [read_unsigned_literal_cons, lower_eq_iff (show '0'.isAlpha = false from rfl), tagged,
        fraction, magnitude, read_magnitude_lower]

theorem read_literal_cons (c : Char) (text : List Char) :
    readLiteral? (c :: text) =
      if c = '-' then readUnsignedLiteral? true text
      else if c = '+' then readUnsignedLiteral? false text
      else readUnsignedLiteral? false (c :: text) := by
  unfold readLiteral?
  split
  · rename_i rest signed
    cases signed
    rfl
  · rename_i rest signed
    cases signed
    rfl
  · rename_i noMinus noPlus
    rw [if_neg fun minus => noMinus text (by rw [minus]),
      if_neg fun plus => noPlus text (by rw [plus])]

theorem read_literal_lower (text : List Char) : readLiteral? (lower text) = readLiteral? text := by
  cases text with
  | nil => rfl
  | cons c text =>
      have whole := read_unsigned_literal_lower false (c :: text)
      rw [lower_cons] at whole ⊢
      simp only [read_literal_cons, lower_eq_iff (show '-'.isAlpha = false from rfl),
        lower_eq_iff (show '+'.isAlpha = false from rfl), read_unsigned_literal_lower, whole]

theorem read_modifiers_lower (modifiers : Modifiers) (text : List Char) :
    readModifiers modifiers (lower text) = (readModifiers modifiers text).map id lower := by
  induction text generalizing modifiers with
  | nil => rfl
  | cons c text ih =>
      have letter : modifierOf? c.toLower = modifierOf? c := by
        rw [modifierOf?, to_lower_to_lower, modifierOf?]
      rw [lower_cons, readModifiers, readModifiers, letter]
      cases modifierOf? c with
      | some more => exact ih (modifiers.union more)
      | none => rfl

theorem read_tag_lower (text : List Char) : readTag (lower text) = (readTag text).map id lower := by
  cases text with
  | nil => rfl
  | cons c text =>
      have tag := of_lower Encoding.ofIntegerTag? rfl c
      rw [lower_cons, readTag, readTag, is_alpha_lower, is_hex_digit_lower, tag]
      split <;> rfl

theorem read_encoding_cons (c d : Char) (text : List Char) :
    readEncoding? (c :: d :: text) =
      if c = '0' ∧ (d = 'x' ∨ d = 'X') then some (readTag text)
      else if c = 'f' ∨ c = 'F' then (Encoding.ofRealTag? d).map (·, text)
      else none := by
  unfold readEncoding?
  split
  · rename_i rest tagged
    cases tagged
    rfl
  · rename_i rest tagged
    cases tagged
    rfl
  · rename_i e rest tagged
    cases tagged
    rfl
  · rename_i e rest tagged
    cases tagged
    rfl
  · rename_i small capital smallReal capitalReal
    rw [if_neg, if_neg]
    · rintro (rfl | rfl)
      · exact smallReal d text rfl
      · exact capitalReal d text rfl
    · rintro ⟨rfl, rfl | rfl⟩
      · exact small text rfl
      · exact capital text rfl

theorem read_encoding_lower (text : List Char) :
    readEncoding? (lower text) = (readEncoding? text).map (Prod.map id lower) := by
  match text with
  | [] => rfl
  | [c] => simp [readEncoding?]
  | c :: d :: text =>
      have tagged := of_lower (fun d => decide (d = 'x' ∨ d = 'X')) rfl d
      have real := of_lower (fun c => decide (c = 'f' ∨ c = 'F')) rfl c
      have kind := of_lower Encoding.ofRealTag? rfl d
      rw [decide_eq_decide] at tagged real
      simp only [lower_cons, read_encoding_cons, lower_eq_iff (show '0'.isAlpha = false from rfl),
        tagged, real, kind, read_tag_lower]
      split
      · rfl
      · split
        · rw [Option.map_map]
          rfl
        · rfl

theorem read_memory_lower (modifiers : Modifiers) (text : List Char) :
    readMemory? modifiers (lower text) = readMemory? modifiers text := by
  rw [readMemory?, read_encoding_lower, readMemory?]
  cases readEncoding? text with
  | none => rfl
  | some found => simp

theorem read_operand_lower (text : List Char) : readOperand (lower text) = readOperand text := by
  simp [readOperand, isRecall, equal_lower, read_literal_lower, read_modifiers_lower,
    read_memory_lower]

/-! ## Durations and hits -/

/-- A duration in a text in lower case. -/
def Duration.lower (duration : Duration) : Duration :=
  ⟨duration.seconds, Text.lower duration.digits, Text.lower duration.rest⟩

theorem read_duration_lower (text : List Char) :
    readDuration? (lower text) = (readDuration? text).map Duration.lower := by
  rw [readDuration?, readDuration?]
  simp only [trim_start_lower, drop_while_lower is_digit_lower, take_while_lower is_digit_lower,
    read_nat_lower]
  cases (trimStart text).dropWhile Char.isDigit with
  | nil => rfl
  | cons c rest =>
      have mark := of_lower (fun c => decide (c = 'S' ∨ c = 's')) rfl c
      rw [decide_eq_decide] at mark
      simp only [lower_cons, mark, trim_start_lower]
      split <;> rfl

theorem take_dot_hits_lower (text : List Char) :
    takeDotHits? (lower text) = (takeDotHits? text).map (Prod.map id lower) := by
  rw [takeDotHits?, takeDotHits?, lower_reverse]
  cases text.reverse with
  | nil => rfl
  | cons c reversed =>
      by_cases closing : c = '.'
      · subst closing
        simp only [lower_cons, show '.'.toLower = '.' from rfl, drop_while_lower is_digit_lower,
          take_while_lower is_digit_lower, lower_reverse, read_unsigned_lower]
        cases reversed.dropWhile Char.isDigit with
        | nil => rfl
        | cons d kept =>
            by_cases opening : d = '.'
            · subst opening
              simp only [lower_cons, show '.'.toLower = '.' from rfl, lower_reverse]
              cases readUnsigned? 10 limit32 (reversed.takeWhile Char.isDigit).reverse with
              | none => rfl
              | some hits =>
                  simp only
                  split <;> rfl
            · have other : d.toLower ≠ '.' := fun same => opening ((lower_eq_iff rfl).mp same)
              simp [opening, other]
      · have other : c.toLower ≠ '.' := fun same => closing ((lower_eq_iff rfl).mp same)
        simp [closing, other]

theorem take_parenthesis_lower (text : List Char) :
    takeParenthesis (lower text) = (takeParenthesis text).map id lower := by
  have dropped : ∀ text, (lower text).dropWhile (· != '(') = lower (text.dropWhile (· != '(')) :=
    drop_while_lower (of_lower (· != '(') rfl)
  have taken : ∀ text, (lower text).takeWhile (· != '(') = lower (text.takeWhile (· != '(')) :=
    take_while_lower (of_lower (· != '(') rfl)
  rw [takeParenthesis, takeParenthesis, lower_reverse]
  cases text.reverse with
  | nil => rfl
  | cons c reversed =>
      by_cases closing : c = ')'
      · subst closing
        simp only [lower_cons, show ')'.toLower = ')' from rfl, dropped, taken, lower_reverse,
          trim_lower, read_unsigned_lower]
        cases reversed.dropWhile (· != '(') with
        | nil => rfl
        | cons d kept => simp
      · have other : c.toLower ≠ ')' := fun same => closing ((lower_eq_iff rfl).mp same)
        simp [closing, other]

theorem take_hits_lower (duration : UInt32) (text : List Char) :
    takeHits duration (lower text) = (takeHits duration text).map id lower := by
  rw [takeHits, takeHits, take_dot_hits_lower]
  cases takeDotHits? text with
  | some taken => simp [take_parenthesis_lower]
  | none =>
      simp only [Option.map_none, take_parenthesis_lower, Prod.map_fst, Prod.map_snd, id,
        take_dot_hits_lower]
      cases takeDotHits? (takeParenthesis text).2 <;> rfl

/-! ## Comparisons -/

/-- A cut of a text in lower case. -/
def Cut.lower (cut : Cut) : Cut :=
  ⟨Text.lower cut.before, cut.comparison, Text.lower cut.after⟩

theorem starts_lower {symbol : List Char} (noLetters : ∀ c ∈ symbol, c.isAlpha = false)
    (text : List Char) : symbol.isPrefixOf (lower text) = symbol.isPrefixOf text := by
  induction symbol generalizing text with
  | nil => rfl
  | cons mark symbol ih =>
      obtain ⟨first, others⟩ := List.forall_mem_cons.mp noLetters
      cases text with
      | nil => rfl
      | cons c text =>
          have head : (mark == c.toLower) = (mark == c) := by
            rw [Bool.eq_iff_iff, beq_iff_eq, beq_iff_eq, eq_comm, lower_eq_iff first, eq_comm]
          rw [lower_cons, List.isPrefixOf_cons_cons, List.isPrefixOf_cons_cons, head, ih others]

theorem cut_lower {symbol : List Char} (noLetters : ∀ c ∈ symbol, c.isAlpha = false)
    (text : List Char) :
    cutAt? symbol (lower text) = (cutAt? symbol text).map (Prod.map lower lower) := by
  induction text with
  | nil => rfl
  | cons c text ih =>
      have starts := starts_lower noLetters (c :: text)
      rw [lower_cons] at starts ⊢
      rw [cutAt?, cutAt?, starts, ih]
      split
      · rw [Option.map_some, ← lower_cons, lower, ← List.map_drop]
        rfl
      · rw [Option.map_map, Option.map_map]
        rfl

theorem find_comparison_lower (text : List Char) :
    findComparison? (lower text) = (findComparison? text).map Cut.lower := by
  have noLetters : ∀ comparison : Comparison, ∀ c ∈ comparison.symbol, c.isAlpha = false := by
    intro comparison
    cases comparison <;> exact check_chars _ _ rfl
  rw [findComparison?, findComparison?, List.map_findSome?]
  congr 1
  funext comparison
  rw [cut_lower (noLetters comparison), Function.comp_apply]
  cases cutAt? comparison.symbol text with
  | none => rfl
  | some cut =>
      simp only [Option.map_some, Prod.map_fst, Prod.map_snd, lower_is_empty]
      split <;> rfl

theorem read_body_lower (flag : Flag) (duration : UInt32) (text : List Char) :
    readBody flag duration (lower text) = readBody flag duration text := by
  rw [readBody, readBody, take_hits_lower]
  simp only [Prod.map_fst, Prod.map_snd, id, find_comparison_lower]
  cases findComparison? (takeHits duration text).2 with
  | none => simp only [Option.map_none, read_operand_lower]
  | some cut => simp only [Option.map_some, Cut.lower, read_operand_lower]

/-! ## Tokens -/

theorem take_flag_lower (token : List Char) :
    takeFlag (lower token) = (takeFlag token).map id lower := by
  have colon : ∀ c : Char, c.toLower = ':' ↔ c = ':' := fun c => lower_eq_iff rfl
  have letter : ∀ c : Char, Flag.ofText [c.toLower] = Flag.ofText [c] := of_lower Flag.ofLetter rfl
  have letters : ∀ c d : Char, Flag.ofText [c.toLower, d.toLower] = Flag.ofText [c, d] :=
    fun _ _ => rfl
  have size : ∀ c : Char, c.toLower.utf8Size = c.utf8Size := of_lower Char.utf8Size rfl
  match token with
  | [] => rfl
  | [first] => by_cases opens : first = ':' <;> simp [takeFlag, opens, colon]
  | [first, second] =>
      by_cases opens : first = ':' <;> by_cases divides : second = ':' <;>
        simp [takeFlag, opens, divides, colon, letter, size, apply_ite (Prod.map id lower)]
  | first :: second :: third :: rest =>
      by_cases opens : first = ':' <;> by_cases divides : second = ':' <;>
        by_cases follows : third = ':' <;>
        simp [takeFlag, opens, divides, follows, colon, letter, letters, size,
          apply_ite (Prod.map id lower)]

/-- A duration that is found in a text in lower case. -/
def Embedded.lower (embedded : Embedded) : Embedded :=
  ⟨Text.lower embedded.body, embedded.seconds, Text.lower embedded.tail⟩

theorem find_embedded_lower (text : List Char) :
    findEmbedded? (lower text) = (findEmbedded? text).map Embedded.lower := by
  have symbols : ∀ comparison : Comparison, lower comparison.symbol = comparison.symbol := by
    intro comparison
    cases comparison <;> rfl
  rw [findEmbedded?, findEmbedded?, find_comparison_lower]
  cases findComparison? text with
  | none => rfl
  | some cut =>
      simp only [Option.map_some, Cut.lower, read_duration_lower]
      cases readDuration? cut.after with
      | none => rfl
      | some duration =>
          simp [Duration.lower, Embedded.lower, symbols, trim_end_lower]

/-- Two readings of a token give the same clause, and what they leave differs only by the case of
letters. -/
def SameReading (first second : Clause × Option (List Char)) : Prop :=
  first.1 = second.1 ∧ first.2.map lower = second.2.map lower

theorem read_work_lower (framesPerSecond : UInt32) (flag : Flag) (frames : UInt32)
    (work : List Char) : SameReading (readWork framesPerSecond flag frames (lower work))
      (readWork framesPerSecond flag frames work) := by
  rw [readWork, find_embedded_lower, readWork]
  cases findEmbedded? work with
  | none => exact ⟨read_body_lower flag frames work, rfl⟩
  | some embedded =>
      simp only [Option.map_some, Embedded.lower, lower_is_empty, read_body_lower]
      split
      · exact ⟨rfl, rfl⟩
      · exact ⟨rfl, by simp⟩

theorem read_token_lower (framesPerSecond : UInt32) (token : List Char) :
    SameReading (readToken framesPerSecond (lower token)) (readToken framesPerSecond token) := by
  rw [read_token_eq, read_token_eq, take_flag_lower]
  simp only [Prod.map_fst, Prod.map_snd, id, read_duration_lower]
  cases readDuration? (takeFlag token).2 with
  | none => exact read_work_lower framesPerSecond _ 0 _
  | some duration => exact read_work_lower framesPerSecond _ _ duration.rest

theorem read_token_same (framesPerSecond : UInt32) {first second : List Char}
    (same : lower first = lower second) :
    SameReading (readToken framesPerSecond first) (readToken framesPerSecond second) := by
  have ofFirst := read_token_lower framesPerSecond first
  have ofSecond := read_token_lower framesPerSecond second
  rw [same] at ofFirst
  exact ⟨ofFirst.1.symm.trans ofSecond.1, ofFirst.2.symm.trans ofSecond.2⟩

/-! ## Formulas -/

theorem read_clauses_same (framesPerSecond : UInt32) {first second : List Char}
    (same : lower first = lower second) :
    readClauses framesPerSecond first = readClauses framesPerSecond second := by
  induction length : first.length using Nat.strongRecOn generalizing first second with
  | ind count ih =>
      obtain ⟨clause, left⟩ := read_token_same framesPerSecond same
      cases ofFirst : readToken framesPerSecond first with
      | mk firstClause firstExtra =>
      cases ofSecond : readToken framesPerSecond second with
      | mk secondClause secondExtra =>
      rw [ofFirst, ofSecond] at clause left
      simp only at clause left
      subst clause
      cases firstExtra with
      | none =>
          cases secondExtra with
          | none => rw [read_clauses_of_last ofFirst, read_clauses_of_last ofSecond]
          | some extra => cases left
      | some extra =>
          cases secondExtra with
          | none => cases left
          | some other =>
              have shorter := readToken_shorter ofFirst
              rw [Option.map_some, Option.map_some, Option.some.injEq] at left
              rw [read_clauses_of_split ofFirst, read_clauses_of_split ofSecond,
                ih extra.length (by omega) left rfl]

theorem split_lower (text : List Char) :
    splitAt '_' (lower text) = (splitAt '_' text).map lower := by
  induction text with
  | nil => rfl
  | cons c text ih =>
      rw [lower_cons, splitAt, splitAt, ih]
      simp only [lower_eq_iff (show '_'.isAlpha = false from rfl)]
      split
      · rfl
      · cases splitAt '_' text <;> rfl

theorem tokens_lower (text : List Char) : tokens (lower text) = (tokens text).map lower := by
  have trimmed : trim ∘ lower = lower ∘ trim := funext trim_lower
  have blank : (fun piece : List Char => !piece.isEmpty) ∘ lower = fun piece => !piece.isEmpty :=
    funext fun piece => congrArg not (lower_is_empty piece)
  rw [tokens, split_lower, List.map_map, trimmed, ← List.map_map, List.filter_map, blank, tokens]

/-- A formula is read like the formula in lower case. -/
theorem read_lower (framesPerSecond : UInt32) (text : String) :
    read framesPerSecond text =
      (tokens (lower text.toList)).flatMap (readClauses framesPerSecond) := by
  rw [read, tokens_lower, List.flatMap_map]
  congr 1
  funext token
  exact read_clauses_same framesPerSecond (lower_lower token).symm

/-- Formulas that differ only by the case of ASCII letters are read as the same clauses. -/
theorem read_ignores_case (framesPerSecond : UInt32) (first second : String)
    (same : equalIgnoringAsciiCase first.toList second.toList = true) :
    read framesPerSecond first = read framesPerSecond second := by
  have lowered : lower first.toList = lower second.toList := eq_of_beq same
  rw [read_lower, read_lower, lowered]

def shouted : String := "R:2SD0XH00FF>=P~0XW10.5._M:FB00AB=RECALL(3)_0X12=0X1A_N:B0X5!=3S0XL6=1"

def whispered : String := "r:2sd0xh00ff>=p~0xw10.5._m:fb00ab=recall(3)_0x12=0x1a_n:b0x5!=3s0xl6=1"

/-- Flags, durations, tags, digits, modifiers, the remembered value, and a token that is split. -/
theorem shouted_is_whispered :
    equalIgnoringAsciiCase shouted.toList whispered.toList = true ∧
      read 60 shouted = read 60 whispered ∧
      (read 60 whispered).map Clause.flag = [.resetIf, .measured, .plain, .andNext, .plain] := by
  have same : equalIgnoringAsciiCase shouted.toList whispered.toList = true := by decide
  exact ⟨same, read_ignores_case 60 shouted whispered same, by decide +kernel⟩

end Formula

end Achievements
