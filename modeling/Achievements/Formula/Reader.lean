import Achievements.Formula.Clause
import Achievements.Text.Blank

/-!
# Reading formulas

A formula is clauses separated by underscores. A clause is an optional flag with a colon, an
optional duration such as `2S`, a comparison, and an optional number of hits in parentheses or
between dots. Reading never fails: what cannot be understood is read in the most permissive way, as
the constant zero, a test for one, or no flag.

A duration in the middle of a token ends the clause before it and starts another one that is joined
to it. `Formula.readToken_shorter` says that the rest of such a token is at least two characters
shorter than the token was, which is why reading ends.
-/

set_option autoImplicit false

namespace Achievements.Formula

open Text

/-! ## Operands -/

/-- An unsigned decimal fraction: digits, at least one of them after the point. -/
def readFraction? (negative : Bool) (text : List Char) : Option Number :=
  match text.dropWhile Char.isDigit with
  | '.' :: fraction =>
      let whole := text.takeWhile Char.isDigit
      if fraction.isEmpty || !fraction.all Char.isDigit then none
      else
        let significand := (readDigits 10 0 (whole ++ fraction)).getD 0
        some (.real (Decimal.toDouble negative ⟨significand, -(fraction.length : Int)⟩))
  | _ => none

/-- An unsigned integer in a base; one too large for a signed 64-bit integer reads as zero. -/
def readMagnitude? (negative : Bool) (base : Nat) (digits : List Char) : Option Number :=
  match readNat? base digits with
  | some value =>
      let magnitude := if value ≤ limit63 then Int64.ofNat value else 0
      some (.int (if negative then -magnitude else magnitude))
  | none => none

/-- A number literal without its sign: hexadecimal after `0x`, a decimal fraction, or a decimal
integer. -/
def readUnsignedLiteral? (negative : Bool) (text : List Char) : Option Number :=
  match text with
  | '0' :: 'x' :: digits => readMagnitude? negative 16 digits
  | '0' :: 'X' :: digits => readMagnitude? negative 16 digits
  | _ => (readFraction? negative text).or (readMagnitude? negative 10 text)

/-- A number literal with at most one sign. -/
def readLiteral? (text : List Char) : Option Number :=
  match text with
  | '-' :: rest => readUnsignedLiteral? true rest
  | '+' :: rest => readUnsignedLiteral? false rest
  | _ => readUnsignedLiteral? false text

/-- The modifier that a letter stands for, in either case. -/
def modifierOf? (letter : Char) : Option Modifiers :=
  match letter.toLower with
  | 'd' => some { delta := true }
  | 'p' => some { prior := true }
  | 'b' => some { bcd := true }
  | '~' => some { invert := true }
  | _ => none

/-- The modifiers at the front of a text, and the text after them. -/
def readModifiers : Modifiers → List Char → Modifiers × List Char
  | modifiers, [] => (modifiers, [])
  | modifiers, c :: rest =>
      match modifierOf? c with
      | some more => readModifiers (modifiers.union more) rest
      | none => (modifiers, c :: rest)

/-- The encoding and the address text that follow `0x`. A letter that is no hexadecimal digit is a
tag, known or not. -/
def readTag (text : List Char) : Encoding × List Char :=
  match text with
  | c :: rest =>
      if c.isAlpha && !isHexDigit c then
        ((Encoding.ofIntegerTag? c).getD (.word16 .littleEndian), rest)
      else (.word16 .littleEndian, text)
  | [] => (.word16 .littleEndian, [])

/-- The encoding and the address text of a memory operand. -/
def readEncoding? (text : List Char) : Option (Encoding × List Char) :=
  match text with
  | '0' :: 'x' :: rest => some (readTag rest)
  | '0' :: 'X' :: rest => some (readTag rest)
  | 'f' :: c :: rest => (Encoding.ofRealTag? c).map (·, rest)
  | 'F' :: c :: rest => (Encoding.ofRealTag? c).map (·, rest)
  | _ => none

/-- A memory operand without its modifiers. -/
def readMemory? (modifiers : Modifiers) (text : List Char) : Option MemoryAccess :=
  match readEncoding? text with
  | some (encoding, address) =>
      match readUnsigned? 16 limit32 (trim address) with
      | some value => some ⟨encoding, UInt32.ofNat value, modifiers⟩
      | none => none
  | none => none

/-- The words for the remembered value. -/
def isRecall (text : List Char) : Bool :=
  equalIgnoringAsciiCase text "recall".toList ||
    equalIgnoringAsciiCase text ('\x7b' :: "recall".toList ++ ['\x7d'])

/-- One side of a comparison. -/
def readOperand (text : List Char) : Operand :=
  let text := trim text
  if isRecall text then .recall
  else
    match readLiteral? text with
    | some value => .constant value
    | none =>
        let (modifiers, rest) := readModifiers {} text
        match readMemory? modifiers rest with
        | some access => .memory access
        | none => .constant (.int ((readInt64? (trim rest)).getD 0))

/-! ## Durations and hits -/

/-- A duration at the front of a text. -/
structure Duration where
  seconds : Nat
  digits : List Char
  rest : List Char

/-- Digits and the letter S, with blanks allowed around them. No duration is zero, and one that
does not fit 64 bits is as long as can be. -/
def readDuration? (text : List Char) : Option Duration :=
  let text := trimStart text
  let digits := text.takeWhile Char.isDigit
  match text.dropWhile Char.isDigit with
  | [] => none
  | c :: rest =>
      let seconds := min limit64 ((readNat? 10 digits).getD 0)
      if (c = 'S' ∨ c = 's') ∧ 0 < seconds then some ⟨seconds, digits, trimStart rest⟩ else none

/-- The number of frames in a duration, at least one frame a second, as far as 32 bits go. -/
def framesIn (framesPerSecond : UInt32) (seconds : Nat) : UInt32 :=
  UInt32.ofNat (min (seconds * max framesPerSecond.toNat 1) limit32)

/-- Takes a number of hits between dots off the end of a text. It counts only if it is positive and
fits 32 bits. -/
def takeDotHits? (text : List Char) : Option (UInt32 × List Char) :=
  match text.reverse with
  | '.' :: reversed =>
      match reversed.dropWhile Char.isDigit with
      | '.' :: kept =>
          match readUnsigned? 10 limit32 (reversed.takeWhile Char.isDigit).reverse with
          | some hits => if 0 < hits then some (UInt32.ofNat hits, kept.reverse) else none
          | none => none
      | _ => none
  | _ => none

/-- Takes a parenthesis off the end of a text, whatever is in it, and reads it as a number of
hits. -/
def takeParenthesis (text : List Char) : Option UInt32 × List Char :=
  match text.reverse with
  | ')' :: reversed =>
      match reversed.dropWhile (· != '(') with
      | _ :: kept =>
          let inner := (reversed.takeWhile (· != '(')).reverse
          ((readUnsigned? 10 limit32 (trim inner)).map UInt32.ofNat, kept.reverse)
      | [] => (none, text)
  | _ => (none, text)

/-- The number of hits at the end of a text, where a count in parentheses comes before the given
duration and that before a count between dots, and the text without them. -/
def takeHits (duration : UInt32) (text : List Char) : UInt32 × List Char :=
  let (dots, text) := match takeDotHits? text with
    | some (hits, kept) => (some hits, kept)
    | none => (none, text)
  let (parenthesis, text) := takeParenthesis text
  let (dots, text) := match dots with
    | some hits => (some hits, text)
    | none =>
        match takeDotHits? text with
        | some (hits, kept) => (some hits, kept)
        | none => (none, text)
  let candidates := [parenthesis.getD 0, duration, dots.getD 0]
  ((candidates.find? (0 < ·)).getD 0, text)

/-! ## Comparisons -/

/-- The text before and after the first occurrence of a symbol. -/
def cutAt? (symbol : List Char) : List Char → Option (List Char × List Char)
  | [] => none
  | c :: rest =>
      if symbol.isPrefixOf (c :: rest) then some ([], (c :: rest).drop symbol.length)
      else (cutAt? symbol rest).map fun (before, after) => (c :: before, after)

/-- A text cut at a comparison. -/
structure Cut where
  before : List Char
  comparison : Comparison
  after : List Char

/-- Comparisons in the order in which they are looked for. -/
def searchOrder : List Comparison := [.ne, .ge, .le, .eq, .gt, .lt]

/-- The text cut at the first occurrence of the first comparison that occurs in it, other than at
its very start. -/
def findComparison? (text : List Char) : Option Cut :=
  searchOrder.findSome? fun comparison =>
    match cutAt? comparison.symbol text with
    | some (before, after) => if before.isEmpty then none else some ⟨before, comparison, after⟩
    | none => none

/-- The clause of a token without its flag and durations. A lone operand is compared with one. -/
def readBody (flag : Flag) (duration : UInt32) (text : List Char) : Clause :=
  let (target, text) := takeHits duration text
  match findComparison? text with
  | some cut =>
      { flag, left := readOperand cut.before, comparison := cut.comparison
        right := readOperand cut.after, target }
  | none =>
      { flag, left := readOperand text, comparison := .eq, right := readOperand ['1'], target }

/-! ## Tokens -/

/-- The flag before a colon, if the colon is the second or third byte of the token, and the text
after it. -/
def takeFlag (token : List Char) : Flag × List Char :=
  match token with
  | ':' :: _ => (.plain, token)
  | first :: ':' :: rest =>
      if first.utf8Size ≤ 2 then (.ofText [first], rest) else (.plain, token)
  | first :: second :: ':' :: rest =>
      if first.utf8Size + second.utf8Size = 2 then (.ofText [first, second], rest)
      else (.plain, token)
  | _ => (.plain, token)

/-- A duration on the right of a comparison: the clause up to its digits, the duration, and what
follows it. -/
structure Embedded where
  body : List Char
  seconds : Nat
  tail : List Char

/-- The duration on the right of the token's comparison. -/
def findEmbedded? (text : List Char) : Option Embedded :=
  match findComparison? text with
  | some cut =>
      match readDuration? cut.after with
      | some duration =>
          some ⟨cut.before ++ cut.comparison.symbol ++ duration.digits, duration.seconds,
            trimEnd duration.rest⟩
      | none => none
  | none => none

/-- The clause that a token starts with, and the token that is left over when a duration splits
it. A clause without a flag is then joined to the next one. -/
def readToken (framesPerSecond : UInt32) (token : List Char) : Clause × Option (List Char) :=
  let (flag, work) := takeFlag token
  let (frames, work) := match readDuration? work with
    | some duration => (framesIn framesPerSecond duration.seconds, duration.rest)
    | none => (0, work)
  match findEmbedded? work with
  | none => (readBody flag frames work, none)
  | some embedded =>
      if embedded.tail.isEmpty then
        (readBody flag (max frames (framesIn framesPerSecond embedded.seconds)) embedded.body, none)
      else
        let flag := if flag = .plain then .andNext else flag
        (readBody flag frames embedded.body,
          some (decimal embedded.seconds ++ 'S' :: embedded.tail))

/-! ## What is left of a token is shorter -/

theorem length_cutAt {symbol text before after : List Char}
    (cut : cutAt? symbol text = some (before, after)) :
    before.length + symbol.length + after.length = text.length := by
  induction text generalizing before with
  | nil => simp [cutAt?] at cut
  | cons c rest ih =>
      rw [cutAt?] at cut
      split at cut
      · rename_i starts
        have bound := (List.isPrefixOf_iff_prefix.mp starts).length_le
        simp only [Option.some.injEq, Prod.mk.injEq] at cut
        obtain ⟨rfl, rfl⟩ := cut
        simp only [List.length_nil, List.length_drop, List.length_cons] at bound ⊢
        omega
      · simp only [Option.map_eq_some_iff, Prod.exists, Prod.mk.injEq] at cut
        obtain ⟨front, back, found, rfl, rfl⟩ := cut
        have shorter := ih found
        simp only [List.length_cons]
        omega

theorem length_findComparison {text : List Char} {cut : Cut}
    (found : findComparison? text = some cut) :
    2 + cut.after.length ≤ text.length ∧
      cut.before.length + cut.comparison.symbol.length + cut.after.length = text.length := by
  obtain ⟨comparison, _, attempt⟩ := List.exists_of_findSome?_eq_some found
  split at attempt
  · rename_i before after at_symbol
    split at attempt
    · cases attempt
    · rename_i before_nonempty
      cases attempt
      have total := length_cutAt at_symbol
      have before_pos : 0 < before.length := by
        cases before with
        | nil => simp at before_nonempty
        | cons => simp
      have symbol_pos : 0 < comparison.symbol.length := by cases comparison <;> decide
      exact ⟨by simp only; omega, total⟩
  · cases attempt

theorem readDigits_lt (base value : Nat) (digits : List Char) {result : Nat}
    (read : readDigits base value digits = some result) :
    result < (value + 1) * Nat.pow base digits.length := by
  induction digits generalizing value with
  | nil => simp_all [readDigits]
  | cons c rest ih =>
      rw [readDigits] at read
      split at read
      · split at read
        · rename_i digit _ small
          have bound := ih _ read
          have step : (value * base + digit + 1) ≤ (value + 1) * base := by
            rw [Nat.add_mul]; omega
          calc result < (value * base + digit + 1) * Nat.pow base rest.length := bound
            _ ≤ (value + 1) * base * Nat.pow base rest.length := Nat.mul_le_mul_right _ step
            _ = (value + 1) * Nat.pow base (rest.length + 1) := by
              rw [Nat.pow_eq, Nat.pow_eq, Nat.pow_succ, Nat.mul_assoc, Nat.mul_comm base]
        · cases read
      · cases read

theorem length_readDuration {text : List Char} {duration : Duration}
    (read : readDuration? text = some duration) :
    duration.digits.length + 1 + duration.rest.length ≤ text.length ∧
      0 < duration.digits.length ∧ 0 < duration.seconds ∧
      duration.seconds < Nat.pow 10 duration.digits.length := by
  rw [readDuration?] at read
  simp only at read
  split at read
  · cases read
  · rename_i c rest after_digits
    split at read
    · rename_i accepted
      cases read
      obtain ⟨_, positive⟩ := accepted
      have total := congrArg List.length
        (List.takeWhile_append_dropWhile (p := Char.isDigit) (l := trimStart text))
      rw [List.length_append, after_digits, List.length_cons] at total
      have start := length_trimStart_le text
      have rest_le := length_trimStart_le rest
      generalize (trimStart text).takeWhile Char.isDigit = digits at *
      cases digits with
      | nil => simp [readNat?, limit64] at positive
      | cons d ds =>
          refine ⟨by simp only [List.length_cons] at *; omega, by simp, positive, ?_⟩
          simp only [readNat?] at positive ⊢
          cases value : readDigits 10 0 (d :: ds) with
          | none => simp [value] at positive
          | some number =>
              have bound := readDigits_lt 10 0 _ value
              simp only [Option.getD_some]
              omega
    · cases read

theorem length_takeFlag (token : List Char) : (takeFlag token).2.length ≤ token.length := by
  unfold takeFlag
  split
  · simp
  · split <;> simp only [List.length_cons] <;> omega
  · split <;> simp only [List.length_cons] <;> omega
  · simp

theorem findEmbedded_shorter {text : List Char} {embedded : Embedded}
    (found : findEmbedded? text = some embedded) :
    (decimal embedded.seconds).length + 1 + embedded.tail.length + 2 ≤ text.length := by
  rw [findEmbedded?] at found
  split at found
  · rename_i cut at_comparison
    split at found
    · rename_i duration at_duration
      cases found
      have outer := (length_findComparison at_comparison).1
      obtain ⟨inner, digits_pos, _, small⟩ := length_readDuration at_duration
      have tail_le := length_trimEnd_le duration.rest
      have digits_le : (decimal duration.seconds).length ≤ duration.digits.length :=
        (Nat.length_toDigits_le_iff (by decide) digits_pos).mpr small
      simp only
      omega
    · cases found
  · cases found

/-- The token left over by a split is at least two characters shorter. -/
theorem readToken_shorter {framesPerSecond : UInt32} {token extra : List Char} {clause : Clause}
    (read : readToken framesPerSecond token = (clause, some extra)) :
    extra.length + 2 ≤ token.length := by
  have flag_le := length_takeFlag token
  unfold readToken at read
  generalize takeFlag token = taken at read flag_le
  obtain ⟨flag, work⟩ := taken
  simp only at read flag_le
  cases duration : readDuration? work with
  | none =>
      simp only [duration] at read
      cases embedded : findEmbedded? work with
      | none => simp [embedded] at read
      | some found =>
          have shorter := findEmbedded_shorter embedded
          simp only [embedded] at read
          split at read
          · simp at read
          · simp only [Prod.mk.injEq, Option.some.injEq] at read
            rw [← read.2]
            simp only [List.length_append, List.length_cons]
            omega
  | some leading =>
      have rest_le := (length_readDuration duration).1
      simp only [duration] at read
      cases embedded : findEmbedded? leading.rest with
      | none => simp [embedded] at read
      | some found =>
          have shorter := findEmbedded_shorter embedded
          simp only [embedded] at read
          split at read
          · simp at read
          · simp only [Prod.mk.injEq, Option.some.injEq] at read
            rw [← read.2]
            simp only [List.length_append, List.length_cons]
            omega

/-! ## Formulas -/

/-- All clauses of a token, each followed by those split off it. -/
def readClauses (framesPerSecond : UInt32) (token : List Char) : List Clause :=
  match _read : readToken framesPerSecond token with
  | (clause, none) => [clause]
  | (clause, some extra) => clause :: readClauses framesPerSecond extra
termination_by token.length
decreasing_by
  have shorter := readToken_shorter _read
  omega

theorem read_clauses_of_last {framesPerSecond : UInt32} {token : List Char} {clause : Clause}
    (last : readToken framesPerSecond token = (clause, none)) :
    readClauses framesPerSecond token = [clause] := by
  rw [readClauses]
  split <;> simp_all

theorem read_clauses_of_split {framesPerSecond : UInt32} {token extra : List Char} {clause : Clause}
    (divided : readToken framesPerSecond token = (clause, some extra)) :
    readClauses framesPerSecond token = clause :: readClauses framesPerSecond extra := by
  rw [readClauses]
  split <;> simp_all

/-- The pieces of a text between separators. -/
def splitAt (separator : Char) : List Char → List (List Char)
  | [] => [[]]
  | c :: rest =>
      if c = separator then [] :: splitAt separator rest
      else
        match splitAt separator rest with
        | piece :: pieces => (c :: piece) :: pieces
        | [] => [[c]]

/-- The tokens of a formula: its pieces between underscores, without blanks around them and without
the blank ones. -/
def tokens (text : List Char) : List (List Char) :=
  ((splitAt '_' text).map trim).filter (!·.isEmpty)

/-- The clauses of a formula. -/
def read (framesPerSecond : UInt32) (text : String) : List Clause :=
  (tokens text.toList).flatMap (readClauses framesPerSecond)

theorem read_of_last {framesPerSecond : UInt32} {text : String} {token : List Char} {clause : Clause}
    (alone : tokens text.toList = [token])
    (last : readToken framesPerSecond token = (clause, none)) :
    read framesPerSecond text = [clause] := by
  rw [read, alone, List.flatMap_singleton, read_clauses_of_last last]

end Achievements.Formula
