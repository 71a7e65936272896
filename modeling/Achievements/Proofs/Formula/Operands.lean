import Achievements.Proofs.Formula.Literals
import Achievements.Proofs.Text.Letters

/-!
# Operands are read back as they were written

The text of an operand has few kinds of beginnings, `OperandStart`, none of which another kind of
operand shares, and no characters that separate operands from what is around them.
-/

set_option autoImplicit false

namespace Achievements

/-- Operands that have a text of their own. An untagged operand is written like a 16-bit one. -/
def Operand.IsWritable : Operand → Prop
  | .memory access => access.encoding ≠ .untagged
  | .constant (.int value) => value ≠ Int64.minValue
  | .constant (.real _) => False
  | .recall => True

instance : DecidablePred Operand.IsWritable
  | .memory access => inferInstanceAs (Decidable (access.encoding ≠ .untagged))
  | .constant (.int value) => inferInstanceAs (Decidable (value ≠ Int64.minValue))
  | .constant (.real _) => inferInstanceAs (Decidable False)
  | .recall => inferInstanceAs (Decidable True)

/-- An untagged access is written like one of 16 bits. -/
def MemoryAccess.settled (access : MemoryAccess) : MemoryAccess :=
  if access.encoding = .untagged then { access with encoding := .word16 .littleEndian } else access

/-- What the text of a number is read as. -/
def Number.settled (value : Number) : Number :=
  if value.hasLiteral then value else .int 0

/-- What the text of an operand is read as. -/
def Operand.settled : Operand → Operand
  | .memory access => .memory access.settled
  | .constant value => .constant value.settled
  | .recall => .recall

theorem Number.settled_of_int {value : Int64} (other : value ≠ Int64.minValue) :
    (Number.int value).settled = .int value :=
  if_pos (bne_iff_ne.mpr other)

theorem Operand.settled_of_writable {operand : Operand} (writable : operand.IsWritable) :
    operand.settled = operand := by
  cases operand with
  | memory access => exact congrArg Operand.memory (if_neg writable)
  | constant value =>
      cases value with
      | int value => exact congrArg Operand.constant (Number.settled_of_int writable)
      | real => cases writable
  | «recall» => rfl

theorem MemoryAccess.tagged_of_settled (access : MemoryAccess) :
    access.settled.encoding ≠ .untagged := by
  unfold settled
  split
  · exact Encoding.noConfusion
  · assumption

namespace Formula

open Text

/-- Characters in texts of operands. -/
def isOperandChar (c : Char) : Bool :=
  c.isAlphanum || c == '~' || c == '-' || c == ' ' || c == '.'

theorem alphanum_of_digit {c : Char} (digit : c.isDigit = true) : c.isAlphanum = true := by
  rw [Char.isAlphanum, digit, Bool.or_true]

theorem visible_of_alphanum {c : Char} (alphanum : c.isAlphanum = true) : isBlank c = false := by
  simp only [Char.isAlphanum, Char.isAlpha, Char.isUpper, Char.isLower, Char.isDigit,
    Bool.or_eq_true, Bool.and_eq_true, decide_eq_true_eq, UInt32.le_iff_toNat_le] at alphanum
  have bounds : (65 ≤ c.toNat ∧ c.toNat ≤ 90 ∨ 97 ≤ c.toNat ∧ c.toNat ≤ 122) ∨
      48 ≤ c.toNat ∧ c.toNat ≤ 57 := alphanum
  unfold isBlank
  simp only [Bool.or_eq_false_iff, Bool.and_eq_false_iff, decide_eq_false_iff_not,
    beq_eq_false_iff_ne]
  omega

/-- How the text of an operand begins. -/
inductive OperandStart : List Char → Prop
  | decimal {text : List Char} (nonempty : text ≠ []) (digits : ∀ c ∈ text, c.isDigit = true) :
      OperandStart text
  | marked {digits rest : List Char} {mark : Char} (marked : Marked digits mark rest) :
      OperandStart (digits ++ mark :: rest)
  | letter {c : Char} {rest : List Char}
      (first : c ∈ ['d', 'p', 'b', '~', 'f', '-', 'r', 'i', 'N']) : OperandStart (c :: rest)
  | tagged {letter : Char} {rest : List Char} : OperandStart ('0' :: 'x' :: letter :: rest)

namespace OperandStart

variable {text : List Char} (start : OperandStart text)

include start

theorem ne_nil : text ≠ [] := by
  cases start with
  | decimal nonempty => exact nonempty
  | marked => exact List.append_ne_nil_of_right_ne_nil _ (List.cons_ne_nil _ _)
  | letter => exact List.cons_ne_nil _ _
  | tagged => exact List.cons_ne_nil _ _

theorem head_visible : ∀ c ∈ text.head?, isBlank c = false := by
  cases start with
  | decimal nonempty digits =>
      intro c first
      exact visible_of_alphanum (alphanum_of_digit (digits c (List.mem_of_mem_head? first)))
  | marked marked =>
      intro c first
      exact visible_of_alphanum (alphanum_of_digit (marked.head_digit c first))
  | letter first =>
      rintro c ⟨⟩
      exact check_chars _ (isBlank · = false) rfl _ first
  | tagged => rintro c ⟨⟩; rfl

end OperandStart

theorem tag_cases {encoding : Encoding} (tagged : encoding ≠ .untagged) :
    (encoding = .word16 .littleEndian ∧ encoding.tag.toList = ['0', 'x', ' ']) ∨
    (∃ letter, encoding.tag.toList = ['0', 'x', letter] ∧ letter.isAlpha = true ∧
      isHexDigit letter = false ∧ Encoding.ofIntegerTag? letter = some encoding) ∨
    ∃ letter, encoding.tag.toList = ['f', letter] ∧ letter.isAlpha = true ∧
      Encoding.ofRealTag? letter = some encoding := by
  cases encoding with
  | untagged => exact absurd rfl tagged
  | bit index =>
      have bits : ∀ index : Fin 8, ∃ letter, (Encoding.bit index).tag.toList = ['0', 'x', letter] ∧
          letter.isAlpha = true ∧ isHexDigit letter = false ∧
          Encoding.ofIntegerTag? letter = some (.bit index) := by
        intro index
        match index with
        | 0 | 1 | 2 | 3 | 4 | 5 | 6 | 7 => exact ⟨_, rfl, rfl, rfl, rfl⟩
      exact Or.inr (Or.inl (bits index))
  | lowNibble | highNibble | byte | bitCount => exact Or.inr (Or.inl ⟨_, rfl, rfl, rfl, rfl⟩)
  | word16 order =>
      cases order with
      | littleEndian => exact Or.inl ⟨rfl, rfl⟩
      | bigEndian => exact Or.inr (Or.inl ⟨_, rfl, rfl, rfl, rfl⟩)
  | word24 order | word32 order => cases order <;> exact Or.inr (Or.inl ⟨_, rfl, rfl, rfl, rfl⟩)
  | real format order => cases format <;> cases order <;> exact Or.inr (Or.inr ⟨_, rfl, rfl, rfl⟩)

theorem read_modifiers (modifiers : Modifiers) {c : Char} (other : modifierOf? c = none)
    (rest : List Char) :
    readModifiers {} (writeModifiers modifiers ++ c :: rest) = (modifiers, c :: rest) := by
  have letters : modifierOf? 'd' = some { delta := true } ∧
      modifierOf? 'p' = some { prior := true } ∧ modifierOf? 'b' = some { bcd := true } ∧
      modifierOf? '~' = some { invert := true } :=
    ⟨rfl, rfl, rfl, rfl⟩
  obtain ⟨delta, prior, bcd, invert⟩ := modifiers
  cases delta <;> cases prior <;> cases bcd <;> cases invert <;>
    simp [writeModifiers, readModifiers, other, letters, Modifiers.union]

theorem literal_none_of_letter {c : Char} (first : c ∈ ['d', 'p', 'b', '~', 'f'])
    (rest : List Char) : readLiteral? (c :: rest) = none := by
  simp only [List.mem_cons, List.not_mem_nil, or_false] at first
  rcases first with rfl | rfl | rfl | rfl | rfl <;>
    simp [readLiteral?, readUnsignedLiteral?, readFraction?, readMagnitude?, readNat?, readDigits,
      digitValue?]

theorem literal_none_of_tag {letter : Char} (tag : isHexDigit letter = false) (rest : List Char) :
    readLiteral? ('0' :: 'x' :: letter :: rest) = none := by
  have value : ∀ digit, digitValue? letter = some digit → ¬ digit < 16 := by
    intro digit read below
    simp [isHexDigit, read, below] at tag
  have digits : readNat? 16 (letter :: rest) = none := by
    rw [readNat?, readDigits]
    · cases read : digitValue? letter with
      | none => rfl
      | some digit => simp only [if_neg (value digit read)]
    · exact List.cons_ne_nil _ _
  simp [readLiteral?, readUnsignedLiteral?, readMagnitude?, digits]

theorem not_recall {c : Char} (first : c.toLower ∉ ['r', '\x7b']) (rest : List Char) :
    isRecall (c :: rest) = false := by
  simp only [List.mem_cons, List.not_mem_nil, or_false, not_or] at first
  have word : "recall".toList = ['r', 'e', 'c', 'a', 'l', 'l'] := rfl
  have plain : ('r' : Char).toLower = 'r' := rfl
  have braced : ('\x7b' : Char).toLower = '\x7b' := rfl
  simp [isRecall, equalIgnoringAsciiCase, word, plain, braced, first]

theorem mem_write_modifiers {modifiers : Modifiers} {c : Char}
    (member : c ∈ writeModifiers modifiers) : c ∈ ['d', 'p', 'b', '~'] := by
  obtain ⟨pair, inPairs, present⟩ := List.mem_filterMap.mp member
  simp only [List.mem_cons, List.not_mem_nil, or_false] at inPairs
  rcases inPairs with rfl | rfl | rfl | rfl <;> simp at present <;> rw [← present.2] <;> decide

section Memory

variable {access : MemoryAccess} (tagged : access.encoding ≠ .untagged)

include tagged

theorem memory_start :
    (∃ c rest, writeMemory access = c :: rest ∧ c ∈ ['d', 'p', 'b', '~', 'f']) ∨
      ∃ letter rest, writeMemory access = '0' :: 'x' :: letter :: rest ∧
        isHexDigit letter = false := by
  unfold writeMemory
  cases letters : writeModifiers access.modifiers with
  | cons c rest =>
      have member : c ∈ writeModifiers access.modifiers := by rw [letters]; exact List.mem_cons_self
      exact Or.inl ⟨c, _, rfl, List.mem_append_left ['f'] (mem_write_modifiers member)⟩
  | nil =>
      rcases tag_cases tagged with ⟨_, tag⟩ | ⟨letter, tag, _, other, _⟩ | ⟨letter, tag, _⟩
      · exact Or.inr ⟨' ', _, by rw [tag]; rfl, rfl⟩
      · exact Or.inr ⟨letter, _, by rw [tag]; rfl, other⟩
      · exact Or.inl ⟨'f', _, by rw [tag]; rfl, by decide⟩

theorem read_memory (modifiers : Modifiers) (width : Nat) :
    readMemory? modifiers (access.encoding.tag.toList ++ hexadecimal width access.address.toNat) =
      some { access with modifiers } := by
  have number : readUnsigned? 16 limit32 (hexadecimal width access.address.toNat) =
      some access.address.toNat :=
    read_unsigned_eq (fun plus => of_mem_hexadecimal (· ≠ '+') _ _ (by decide) plus rfl)
      (read_nat_hexadecimal _ _) (Nat.le_of_lt_succ access.address.toNat_lt)
  have trimmed : trim (hexadecimal width access.address.toNat) =
      hexadecimal width access.address.toNat :=
    trim_of_no_blanks fun c member => of_mem_hexadecimal (isBlank · = false) _ _ (by decide) member
  have address : UInt32.ofNat access.address.toNat = access.address := UInt32.ofNat_toNat
  rcases tag_cases tagged with ⟨short, tag⟩ | ⟨letter, tag, alpha, other, encoding⟩ |
      ⟨letter, tag, _, encoding⟩
  · -- The blank after the prefix is no tag; it goes with the address and is trimmed there.
    have blank : trim (' ' :: hexadecimal width access.address.toNat) =
        trim (hexadecimal width access.address.toNat) := by
      rw [trim, trimStart, List.dropWhile_cons_of_pos (by decide)]
      rfl
    have untagged : (' ' : Char).isAlpha = false := rfl
    rw [tag]
    simp [readMemory?, readEncoding?, readTag, untagged, blank, trimmed, number, address, short]
  · rw [tag]
    simp [readMemory?, readEncoding?, readTag, alpha, other, encoding, trimmed, number, address]
  · rw [tag]
    simp [readMemory?, readEncoding?, encoding, trimmed, number, address]

theorem memory_chars : ∀ c ∈ writeMemory access, isOperandChar c = true := by
  have letters : ∀ c ∈ ['d', 'p', 'b', '~', '0', 'x', 'f', ' '], isOperandChar c = true :=
    check_chars _ _ rfl
  have alphabetic : ∀ letter : Char, letter.isAlpha = true → isOperandChar letter = true := by
    intro letter alpha
    simp [isOperandChar, Char.isAlphanum, alpha]
  intro c member
  rcases List.mem_append.mp member with before | digit
  · rcases List.mem_append.mp before with modifier | inTag
    · exact letters c (List.mem_append_left ['0', 'x', 'f', ' '] (mem_write_modifiers modifier))
    · rcases tag_cases tagged with ⟨_, tag⟩ | ⟨letter, tag, alpha, _⟩ | ⟨letter, tag, alpha, _⟩ <;>
        rw [tag] at inTag <;>
        simp only [List.mem_cons, List.not_mem_nil, or_false] at inTag
      · rcases inTag with rfl | rfl | rfl <;> exact letters _ (by decide)
      · rcases inTag with rfl | rfl | rfl
        · exact letters _ (by decide)
        · exact letters _ (by decide)
        · exact alphabetic _ alpha
      · rcases inTag with rfl | rfl
        · exact letters _ (by decide)
        · exact alphabetic _ alpha
  · exact of_mem_hexadecimal (isOperandChar · = true) _ _ (by decide) digit

omit tagged in
theorem memory_last : ∀ c ∈ (writeMemory access).getLast?, c.isAlphanum = true := by
  intro c last
  exact of_mem_hexadecimal (·.isAlphanum = true) _ _ (by decide)
    (mem_of_last (hexadecimal_ne_nil _ _) last)

theorem literal_none_of_memory : readLiteral? (writeMemory access) = none := by
  rcases memory_start tagged with ⟨c, rest, text, first⟩ | ⟨letter, rest, text, tag⟩
  · rw [text]
    exact literal_none_of_letter first rest
  · rw [text]
    exact literal_none_of_tag tag rest

theorem memory_not_recall : isRecall (writeMemory access) = false := by
  have letters : ∀ c ∈ ['d', 'p', 'b', '~', 'f'], c.toLower ∉ ['r', '\x7b'] :=
    check_chars _ _ rfl
  rcases memory_start tagged with ⟨c, rest, text, first⟩ | ⟨letter, rest, text, _⟩
  · rw [text]
    exact not_recall (letters c first) rest
  · rw [text]
    exact not_recall (by decide) _

theorem read_modifiers_of_memory : readModifiers {} (writeMemory access) =
    (access.modifiers, access.encoding.tag.toList ++
      hexadecimal (addressWidth access.encoding) access.address.toNat) := by
  obtain ⟨c, rest, tag, other⟩ : ∃ c rest, access.encoding.tag.toList = c :: rest ∧
      modifierOf? c = none := by
    rcases tag_cases tagged with ⟨_, tag⟩ | ⟨letter, tag, _⟩ | ⟨letter, tag, _⟩ <;>
      exact ⟨_, _, tag, rfl⟩
  rw [writeMemory, List.append_assoc, tag]
  exact read_modifiers access.modifiers other _

end Memory

theorem literal_of_decimal (negative : Bool) (number : Nat) :
    readUnsignedLiteral? negative (decimal number) =
      some (.int (if number ≤ limit63 then
        if negative then -Int64.ofNat number else Int64.ofNat number else 0)) := by
  have noHex : ∀ c ∈ decimal number, c ≠ 'x' ∧ c ≠ 'X' := fun c member =>
    of_mem_decimal (fun c => c ≠ 'x' ∧ c ≠ 'X') number (by decide) member
  have noPoint : readFraction? negative (decimal number) = none := by
    have rest := drop_digits_decimal number []
    rw [List.append_nil] at rest
    simp [readFraction?, rest]
  rw [unsigned_literal_eq negative noHex, noPoint, readMagnitude?, read_nat_decimal, Option.none_or]
  by_cases small : number ≤ limit63
  · simp only [if_pos small]
  · simp only [if_neg small]
    cases negative <;> rfl

/-- The smallest integer alone has a magnitude that does not fit. -/
theorem literal_of_integer (value : Int64) :
    readLiteral? (signedDecimal value.toInt) = some (Number.int value).settled := by
  have lower := value.le_toInt
  have upper := value.toInt_lt
  have limit : limit63 = 9223372036854775807 := rfl
  unfold signedDecimal
  split
  · rename_i negative
    rw [readLiteral?, literal_of_decimal true]
    by_cases least : value = Int64.minValue
    · subst least
      rfl
    · have above : value.toInt ≠ -9223372036854775808 := fun same => least (Int64.toInt_inj.mp same)
      have same : -Int64.ofNat value.toInt.natAbs = value := by
        apply Int64.toInt_inj.mp
        rw [Int64.toInt_neg, Int64.toInt_ofNat_of_lt (by omega)]
        rw [Int.bmod_eq_of_le (by omega) (by omega)]
        omega
      rw [if_pos (by omega), if_pos rfl, same, Number.settled_of_int least]
  · rename_i nonnegative
    have other : value ≠ Int64.minValue := by
      rintro rfl
      exact nonnegative (by decide)
    have same : Int64.ofNat value.toInt.natAbs = value := by
      apply Int64.toInt_inj.mp
      rw [Int64.toInt_ofNat_of_lt (by omega)]
      omega
    have unsigned : ∀ c ∈ (decimal value.toInt.natAbs).head?, c ≠ '-' ∧ c ≠ '+' := fun c first =>
      of_mem_decimal (fun c => c ≠ '-' ∧ c ≠ '+') _ (by decide) (List.mem_of_mem_head? first)
    have signed := signed_literal false unsigned
    rw [Json.Numeral.sign, if_neg Bool.false_ne_true, List.nil_append] at signed
    rw [signed, literal_of_decimal false, if_pos (by omega), if_neg Bool.false_ne_true, same,
      Number.settled_of_int other]

theorem write_settled (access : MemoryAccess) :
    writeOperand (.memory access) = writeMemory access.settled := by
  unfold MemoryAccess.settled
  split
  · rename_i untagged
    have tag : access.encoding.tag = (Encoding.word16 .littleEndian).tag := by rw [untagged]; rfl
    have width : addressWidth access.encoding = addressWidth (.word16 .littleEndian) := by
      rw [untagged]; rfl
    show writeMemory access = _
    rw [writeMemory, writeMemory, tag, width]
  · rfl

theorem write_integer (value : Int64) :
    writeOperand (.constant (.int value)) = signedDecimal value.toInt := rfl

theorem signed_chars (value : Int) : ∀ c ∈ signedDecimal value, c = '-' ∨ c.isDigit = true := by
  have digits := digit_of_mem_decimal value.natAbs
  intro c member
  unfold signedDecimal at member
  split at member
  · exact (List.mem_cons.mp member).imp_right (digits c)
  · exact .inr (digits c member)

theorem signed_last (value : Int) : ∀ c ∈ (signedDecimal value).getLast?, c.isDigit = true := by
  have digits := digit_of_mem_decimal value.natAbs
  intro c last
  unfold signedDecimal at last
  split at last
  · rw [← List.singleton_append] at last
    exact digits c (mem_of_last Nat.toDigits_ne_nil last)
  · exact digits c (List.mem_of_mem_getLast? last)

theorem write_real (value : Float) :
    writeOperand (.constant (.real value)) = realLayout.write value := rfl

section Operand

variable (operand : Operand)

theorem operand_start : OperandStart (writeOperand operand) := by
  cases operand with
  | memory access =>
      rw [write_settled]
      rcases memory_start access.tagged_of_settled with ⟨c, rest, text, first⟩ | ⟨letter, rest, text, _⟩
      · rw [text]
        exact .letter (List.mem_append_left ['-', 'r', 'i', 'N'] first)
      · rw [text]
        exact .tagged
  | constant number =>
      cases number with
      | int value =>
          rw [write_integer, signedDecimal]
          split
          · exact .letter (by decide)
          · exact .decimal Nat.toDigits_ne_nil (digit_of_mem_decimal _)
      | real value =>
          have real := real_text value
          rw [write_real]
          generalize realLayout.write value = text at real ⊢
          cases real with
          | marked negative marked =>
              cases negative with
              | true => exact .letter (by decide)
              | false => exact .marked marked
          | infinite negative => cases negative <;> exact .letter (by decide)
          | nan => exact .letter (by decide)
  | «recall» => exact show OperandStart ('r' :: "ecall".toList) from .letter (by decide)

theorem operand_chars : ∀ c ∈ writeOperand operand, isOperandChar c = true := by
  have digits : ∀ c : Char, c.isDigit = true → isOperandChar c = true := by
    intro c digit
    simp [isOperandChar, alphanum_of_digit digit]
  intro c member
  cases operand with
  | memory access =>
      rw [write_settled] at member
      exact memory_chars access.tagged_of_settled c member
  | constant number =>
      cases number with
      | int value =>
          rw [write_integer] at member
          rcases signed_chars value.toInt c member with rfl | digit
          · rfl
          · exact digits c digit
      | real value =>
          rcases (real_text value).chars c member with digit | other
          · exact digits c digit
          · exact check_chars _ (isOperandChar · = true) rfl c other
  | «recall» => exact check_chars _ (isOperandChar · = true) rfl c member

theorem operand_last : ∀ c ∈ (writeOperand operand).getLast?, c.isAlphanum = true := by
  cases operand with
  | memory access =>
      rw [write_settled]
      exact memory_last
  | constant number =>
      cases number with
      | int value => exact fun c last => alphanum_of_digit (signed_last value.toInt c last)
      | real value => exact (real_text value).last_alphanum
  | «recall» =>
      rintro c ⟨⟩
      rfl

theorem trim_operand : trim (writeOperand operand) = writeOperand operand :=
  trim_eq (operand_start operand).head_visible
    fun c last => visible_of_alphanum (operand_last operand c last)

end Operand

/-! ## What operands are read as -/

theorem number_head (number : Number) :
    ∀ c ∈ (writeOperand (.constant number)).head?, c.isDigit = true ∨ c ∈ ['-', 'i', 'N'] := by
  intro c first
  cases number with
  | int value =>
      rcases signed_chars value.toInt c (List.mem_of_mem_head? first) with rfl | digit
      · exact .inr (by decide)
      · exact .inl digit
  | real value => exact (real_text value).head c first

theorem no_modifier {c : Char} (head : c.isDigit = true ∨ c ∈ ['-', 'i', 'N']) :
    modifierOf? c = none := by
  rcases head with digit | other
  · rw [← is_digit_lower] at digit
    unfold modifierOf?
    split <;> first | rfl | (rename_i same; rw [same] at digit; cases digit)
  · exact check_chars _ (modifierOf? · = none) rfl c other

theorem no_recall {c : Char} (head : c.isDigit = true ∨ c ∈ ['-', 'i', 'N']) :
    c.toLower ∉ ['r', '\x7b'] := by
  rcases head with digit | other
  · rw [← is_digit_lower] at digit
    intro member
    have letters := check_chars ['r', '\x7b'] (·.isDigit = false) rfl _ member
    rw [digit] at letters
    cases letters
  · exact check_chars _ (fun c => c.toLower ∉ ['r', '\x7b']) rfl c other

theorem no_memory {value : Float} {c : Char} {rest : List Char}
    (text : realLayout.write value = c :: rest) : readMemory? {} (realLayout.write value) = none := by
  have head := (real_text value).head c (by rw [text]; rfl)
  have noHex := (real_text value).no_hex
  have encoding : readEncoding? (realLayout.write value) = none := by
    rw [text] at noHex ⊢
    unfold readEncoding?
    split
    · rename_i tagged
      exact absurd rfl (noHex 'x' (by simp [tagged])).1
    · rename_i tagged
      exact absurd rfl (noHex 'X' (by simp [tagged])).2
    · rename_i tagged
      cases tagged
      exact absurd head (by decide)
    · rename_i tagged
      cases tagged
      exact absurd head (by decide)
    · rfl
  rw [readMemory?, encoding]

/-- A number without a literal is read as zero. -/
theorem read_number (number : Number) :
    readOperand (writeOperand (.constant number)) = .constant number.settled := by
  have trimmed := trim_operand (.constant number)
  obtain ⟨c, rest, text⟩ := List.exists_cons_of_ne_nil (operand_start (.constant number)).ne_nil
  have head := number_head number c (by rw [text]; rfl)
  have other : isRecall (writeOperand (.constant number)) = false := by
    rw [text]
    exact not_recall (no_recall head) rest
  rw [readOperand]
  simp only [trimmed, other]
  cases number with
  | int value =>
      rw [write_integer, literal_of_integer]
      rfl
  | real value =>
      rw [write_real] at *
      rw [Number.settled]
      cases literal : (Number.real value).hasLiteral with
      | true =>
          rw [literal_of_real literal]
          rfl
      | false =>
          have plain : readModifiers {} (realLayout.write value) = ({}, realLayout.write value) := by
            rw [text, readModifiers, no_modifier head]
          rw [literal_none_of_real literal]
          simp only [plain, no_memory text, trimmed, int_none_of_real literal]
          rfl

/-- What an operand is read as from its text. -/
theorem read_write_operand (operand : Operand) :
    readOperand (writeOperand operand) = operand.settled := by
  cases operand with
  | memory access =>
      have tagged := access.tagged_of_settled
      have trimmed := trim_operand (.memory access)
      have memory := read_memory tagged access.settled.modifiers (addressWidth access.settled.encoding)
      rw [readOperand]
      simp only [trimmed]
      rw [write_settled, memory_not_recall tagged, literal_none_of_memory tagged,
        read_modifiers_of_memory tagged]
      simp [memory, Operand.settled]
  | constant number => exact read_number number
  | «recall» => rfl

end Formula

end Achievements
