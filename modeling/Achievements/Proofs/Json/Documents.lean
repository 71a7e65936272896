import Achievements.Proofs.Json.Leaves

/-!
# Texts of documents are read back

`Spells` says which texts stand for a document: blanks are free between the tokens, and the tokens are
those that the writers write. Every such text is read as its document. The written form of a document
spells what becomes of it, `Json.reread`: numbers are read again, and what has no written form is gone.
-/

set_option autoImplicit false

namespace Achievements.Json

/-! ## Blanks -/

/-- One of the four blanks that documents know. -/
def IsBlank (c : Char) : Prop :=
  c = ' ' ∨ c = '\n' ∨ c = '\r' ∨ c = '\t'

/-- Nothing but blanks. -/
def Blanks (text : List Char) : Prop :=
  ∀ c ∈ text, IsBlank c

theorem blanks_of_nil : Blanks [] := by
  simp [Blanks]

theorem skip_blank {c : Char} (blank : IsBlank c) (rest : List Char) :
    skipBlanks (c :: rest) = skipBlanks rest := by
  rcases blank with rfl | rfl | rfl | rfl <;> rfl

theorem skip_blanks {blanks : List Char} (areBlank : Blanks blanks) (rest : List Char) :
    skipBlanks (blanks ++ rest) = skipBlanks rest := by
  induction blanks with
  | nil => rfl
  | cons c blanks ih =>
      obtain ⟨blank, more⟩ := List.forall_mem_cons.mp areBlank
      rw [List.cons_append, skip_blank blank]
      exact ih more

theorem skip_nothing {c : Char} (visible : ¬IsBlank c) (rest : List Char) :
    skipBlanks (c :: rest) = c :: rest := by
  apply List.dropWhile_cons_of_neg
  simpa [IsBlank, or_assoc] using visible

theorem not_blank_of_digit {c : Char} (digit : c.isDigit = true) : ¬IsBlank c := by
  rintro (rfl | rfl | rfl | rfl) <;> exact absurd digit (by decide)

theorem ends_of_blanks {blanks : List Char} (areBlank : Blanks blanks) {c : Char}
    (stop : Ends [c]) (rest : List Char) : Ends (blanks ++ c :: rest) := by
  cases blanks with
  | nil => exact stop
  | cons blank blanks =>
      intro first isFirst
      cases isFirst
      rcases (List.forall_mem_cons.mp areBlank).1 with rfl | rfl | rfl | rfl <;> decide

/-! ## Spellings -/

mutual

/-- The texts of a document. -/
inductive Spells : List Char → Json → Prop
  | blank {c : Char} {text : List Char} {document : Json} (blank : IsBlank c)
      (spells : Spells text document) : Spells (c :: text) document
  | null : Spells "null".toList .null
  | bool (value : Bool) : Spells (if value then "true".toList else "false".toList) (.bool value)
  | string (value : String) : Spells (writeString value) (.string value)
  | number {numeral : Numeral} (formed : numeral.Formed) : Spells numeral.text numeral.value
  | emptyArray {gap : List Char} (blanks : Blanks gap) : Spells ('[' :: (gap ++ [']'])) (.array [])
  | array {text : List Char} {items : List Json} (spells : SpellsItems text items) :
      Spells ('[' :: text) (.array items)
  | emptyObject {gap : List Char} (blanks : Blanks gap) :
      Spells ('\x7b' :: (gap ++ ['\x7d'])) (.object [])
  | object {text : List Char} {fields : List (String × Json)} (spells : SpellsFields text fields) :
      Spells ('\x7b' :: text) (.object fields)

/-- The texts of the items of an array, with the bracket that closes it. -/
inductive SpellsItems : List Char → List Json → Prop
  | last {text gap : List Char} {item : Json} (spells : Spells text item) (blanks : Blanks gap) :
      SpellsItems (text ++ (gap ++ [']'])) [item]
  | more {text gap rest : List Char} {item : Json} {items : List Json} (spells : Spells text item)
      (blanks : Blanks gap) (others : SpellsItems rest items) :
      SpellsItems (text ++ (gap ++ ',' :: rest)) (item :: items)

/-- The texts of the fields of an object, with the brace that closes it. -/
inductive SpellsFields : List Char → List (String × Json) → Prop
  | last {front gap text back : List Char} {value : Json} (name : String)
      (before : Blanks front) (between : Blanks gap) (spells : Spells text value)
      (after : Blanks back) :
      SpellsFields (front ++ writeString name ++ gap ++ ':' :: (text ++ (back ++ ['\x7d'])))
        [(name, value)]
  | more {front gap text back rest : List Char} {value : Json} {fields : List (String × Json)}
      (name : String) (before : Blanks front) (between : Blanks gap) (spells : Spells text value)
      (after : Blanks back) (others : SpellsFields rest fields) :
      SpellsFields (front ++ writeString name ++ gap ++ ':' :: (text ++ (back ++ ',' :: rest)))
        ((name, value) :: fields)

end

theorem first_of_number {numeral : Numeral} (formed : numeral.Formed) :
    ∃ c rest, numeral.text = c :: rest ∧ (c = '-' ∨ c.isDigit = true) := by
  obtain ⟨c, digits, split⟩ := List.exists_cons_of_ne_nil formed.whole_ne_nil
  have digit : c.isDigit = true := formed.whole_digits c (by simp [split])
  rw [Numeral.text, split]
  cases numeral.negative with
  | true => exact ⟨'-', _, rfl, .inl rfl⟩
  | false => exact ⟨c, _, rfl, .inr digit⟩

theorem first_of_spells {text : List Char} {document : Json} (spells : Spells text document) :
    ∃ blanks c rest, Blanks blanks ∧ text = blanks ++ c :: rest ∧ ¬IsBlank c ∧ c ≠ ']' := by
  match spells with
  | .blank blank spells =>
      obtain ⟨blanks, c, rest, areBlank, split, visible⟩ := first_of_spells spells
      exact ⟨_ :: blanks, c, rest, List.forall_mem_cons.mpr ⟨blank, areBlank⟩, by rw [split]; rfl,
        visible⟩
  | .null => exact ⟨[], 'n', _, blanks_of_nil, rfl, by simp [IsBlank], by decide⟩
  | .bool true => exact ⟨[], 't', _, blanks_of_nil, rfl, by simp [IsBlank], by decide⟩
  | .bool false => exact ⟨[], 'f', _, blanks_of_nil, rfl, by simp [IsBlank], by decide⟩
  | .string _ => exact ⟨[], '"', _, blanks_of_nil, rfl, by simp [IsBlank], by decide⟩
  | .number formed =>
      obtain ⟨c, rest, split, sign | digit⟩ := first_of_number formed
      · exact ⟨[], c, rest, blanks_of_nil, split, by simp [IsBlank, sign], by simp [sign]⟩
      · refine ⟨[], c, rest, blanks_of_nil, split, not_blank_of_digit digit, ?_⟩
        rintro rfl
        exact absurd digit (by decide)
  | .emptyArray _ => exact ⟨[], '[', _, blanks_of_nil, rfl, by simp [IsBlank], by decide⟩
  | .array _ => exact ⟨[], '[', _, blanks_of_nil, rfl, by simp [IsBlank], by decide⟩
  | .emptyObject _ => exact ⟨[], '\x7b', _, blanks_of_nil, rfl, by simp [IsBlank], by decide⟩
  | .object _ => exact ⟨[], '\x7b', _, blanks_of_nil, rfl, by simp [IsBlank], by decide⟩

theorem not_bracket_of_spells {text : List Char} {document : Json} (spells : Spells text document)
    (rest after : List Char) : skipBlanks (text ++ rest) ≠ ']' :: after := by
  obtain ⟨blanks, c, more, areBlank, split, visible, noBracket⟩ := first_of_spells spells
  rw [split, List.append_assoc, skip_blanks areBlank, List.cons_append, skip_nothing visible]
  intro same
  exact noBracket (List.cons.inj same).1

theorem not_bracket_of_items {text : List Char} {items : List Json}
    (spells : SpellsItems text items) (rest after : List Char) :
    skipBlanks (text ++ rest) ≠ ']' :: after := by
  cases spells with
  | last spells blanks =>
      rw [List.append_assoc]
      exact not_bracket_of_spells spells _ after
  | more spells blanks others =>
      rw [List.append_assoc]
      exact not_bracket_of_spells spells _ after

theorem not_brace_of_fields {text : List Char} {fields : List (String × Json)}
    (spells : SpellsFields text fields) (rest after : List Char) :
    skipBlanks (text ++ rest) ≠ '\x7d' :: after := by
  have quoted {front : List Char} (before : Blanks front) (name : String) (tail : List Char) :
      skipBlanks (front ++ writeString name ++ tail) ≠ '\x7d' :: after := by
    rw [List.append_assoc, skip_blanks before, writeString, List.cons_append, List.cons_append,
      skip_nothing (by simp [IsBlank])]
    intro same
    exact absurd (List.cons.inj same).1 (by decide)
  cases spells with
  | last name before between spells after =>
      rw [List.append_assoc, List.append_assoc (_ ++ _)]
      exact quoted before name _
  | more name before between spells after others =>
      rw [List.append_assoc, List.append_assoc (_ ++ _)]
      exact quoted before name _

/-! ## Reading -/

theorem read_value_blank (fuel : Nat) {c : Char} (blank : IsBlank c) (rest : List Char) :
    readValue fuel (c :: rest) = readValue fuel rest := by
  cases fuel with
  | zero => rw [readValue, readValue]
  | succ fuel => rw [readValue, readValue, skip_blank blank]

theorem read_value_string (fuel : Nat) (value : String) (rest : List Char) :
    readValue (fuel + 1) (writeString value ++ rest) = some (.string value, rest) := by
  have split : writeString value ++ rest =
      '"' :: (value.toList.flatMap escapeChar ++ '"' :: rest) := by
    simp [writeString]
  rw [split, readValue, skip_nothing (by simp [IsBlank])]
  simp only [read_string]

theorem read_value_number (fuel : Nat) {numeral : Numeral} (formed : numeral.Formed)
    {rest : List Char} (ends : Ends rest) :
    readValue (fuel + 1) (numeral.text ++ rest) = some (numeral.value, rest) := by
  obtain ⟨c, more, split, first⟩ := first_of_number formed
  have read := Numeral.read_numeral formed ends
  have other : ∀ d, d ≠ '-' → d.isDigit = false → c ≠ d := by
    rintro d noSign noDigit rfl
    rcases first with sign | digit
    · exact noSign sign
    · exact absurd (digit.symm.trans noDigit) (by decide)
  have visible : ¬IsBlank c := by
    rintro (blank | blank | blank | blank) <;> exact other _ (by decide) (by decide) blank
  rw [split, List.cons_append] at read ⊢
  rw [readValue, skip_nothing visible]
  split <;> rename_i start <;> first
    | exact absurd (List.cons.inj start).1 (other _ (by decide) (by decide))
    | exact read

theorem ends_of_mark {c : Char} (mark : c = ',' ∨ c = ']' ∨ c = '\x7d') : Ends [c] := by
  rcases mark with rfl | rfl | rfl <;> simp [Ends]

/-- What is read of a field once its value has been read. -/
theorem read_field {fuel : Nat} {front gap text rest : List Char} {value : Json} (name : String)
    (before : Blanks front) (between : Blanks gap) (read : readValue fuel text = some (value, rest)) :
    readFields (fuel + 1) (front ++ writeString name ++ gap ++ ':' :: text) =
      match skipBlanks rest with
      | '\x7d' :: rest => some (some [(name, value)], rest)
      | ',' :: rest =>
          match readFields fuel rest with
          | some (fields, rest) => some (prependField (some name) value fields, rest)
          | none => none
      | _ => none := by
  have split : front ++ writeString name ++ gap ++ ':' :: text =
      front ++ '"' :: (name.toList.flatMap escapeChar ++ '"' :: (gap ++ ':' :: text)) := by
    simp [writeString]
  rw [split, readFields, skip_blanks before, skip_nothing (by simp [IsBlank])]
  simp only [read_string]
  rw [skip_blanks between, skip_nothing (by simp [IsBlank])]
  simp only [read]
  rfl

mutual

/-- A spelled document is read up to where its text ends. -/
theorem read_value {text : List Char} {document : Json} (spells : Spells text document)
    (fuel : Nat) (enough : text.length < fuel) {rest : List Char} (ends : Ends rest) :
    readValue fuel (text ++ rest) = some (document, rest) := by
  -- By recursion over the spelling. Each bracket and each mark uses up fuel, and so a character.
  obtain ⟨fuel, rfl⟩ : ∃ less, fuel = less + 1 := ⟨fuel - 1, by omega⟩
  match spells with
  | .blank blank spells =>
      rw [List.cons_append, read_value_blank _ blank]
      exact read_value spells _ (Nat.lt_of_succ_lt enough) ends
  | .null => rfl
  | .bool true => rfl
  | .bool false => rfl
  | .string value => exact read_value_string fuel value rest
  | .number formed => exact read_value_number fuel formed ends
  | .emptyArray blanks =>
      rw [List.cons_append, List.append_assoc, readValue, skip_nothing (by simp [IsBlank])]
      simp only
      rw [skip_blanks blanks]
      rfl
  | .array spells =>
      have read := read_items spells fuel (Nat.lt_of_succ_lt_succ enough) rest
      rw [List.cons_append, readValue, skip_nothing (by simp [IsBlank])]
      simp only
      split
      · rename_i closed
        exact absurd closed (not_bracket_of_items spells _ _)
      · rw [read]
  | .emptyObject blanks =>
      rw [List.cons_append, List.append_assoc, readValue, skip_nothing (by simp [IsBlank])]
      simp only
      rw [skip_blanks blanks]
      rfl
  | .object spells =>
      have read := read_fields spells fuel (Nat.lt_of_succ_lt_succ enough) rest
      rw [List.cons_append, readValue, skip_nothing (by simp [IsBlank])]
      simp only
      split
      · rename_i closed
        exact absurd closed (not_brace_of_fields spells _ _)
      · rw [read]
        rfl

theorem read_items {text : List Char} {items : List Json} (spells : SpellsItems text items)
    (fuel : Nat) (enough : text.length < fuel) (rest : List Char) :
    readItems fuel (text ++ rest) = some (items, rest) := by
  obtain ⟨fuel, rfl⟩ : ∃ less, fuel = less + 1 := ⟨fuel - 1, by omega⟩
  match spells with
  | .last spells blanks =>
      simp only [List.length_append, List.length_cons] at enough
      have read := read_value spells fuel (by omega)
        (ends_of_blanks blanks (ends_of_mark (.inr (.inl rfl))) rest)
      simp only [List.append_assoc, List.cons_append, List.nil_append] at read ⊢
      rw [readItems, read]
      simp only
      rw [skip_blanks blanks]
      rfl
  | .more spells blanks others =>
      simp only [List.length_append, List.length_cons] at enough
      have read (follow : List Char) := read_value spells fuel (by omega)
        (ends_of_blanks blanks (ends_of_mark (.inl rfl)) follow)
      have others := read_items others fuel (by omega) rest
      simp only [List.append_assoc, List.cons_append] at read ⊢
      rw [readItems, read]
      simp only
      rw [skip_blanks blanks, skip_nothing (by simp [IsBlank])]
      simp only [others]

theorem read_fields {text : List Char} {fields : List (String × Json)}
    (spells : SpellsFields text fields) (fuel : Nat) (enough : text.length < fuel)
    (rest : List Char) : readFields fuel (text ++ rest) = some (some fields, rest) := by
  obtain ⟨fuel, rfl⟩ : ∃ less, fuel = less + 1 := ⟨fuel - 1, by omega⟩
  match spells with
  | .last name before between spells after =>
      simp only [List.length_append, List.length_cons] at enough
      have read := read_value spells fuel (by omega)
        (ends_of_blanks after (ends_of_mark (.inr (.inr rfl))) rest)
      have field := read_field name before between read
      simp only [List.append_assoc, List.cons_append, List.nil_append] at field ⊢
      rw [field, skip_blanks after]
      rfl
  | .more name before between spells after others =>
      simp only [List.length_append, List.length_cons] at enough
      have read (follow : List Char) := read_value spells fuel (by omega)
        (ends_of_blanks after (ends_of_mark (.inl rfl)) follow)
      have others := read_fields others fuel (by omega) rest
      have field (follow : List Char) := read_field name before between (read follow)
      simp only [List.append_assoc, List.cons_append] at field ⊢
      rw [field, skip_blanks after, skip_nothing (by simp [IsBlank])]
      simp only [others]
      rfl

end

theorem skip_only_blanks {blanks : List Char} (areBlank : Blanks blanks) : skipBlanks blanks = [] := by
  have skipped := skip_blanks areBlank []
  rwa [List.append_nil] at skipped

/-- A spelled document is what its text consists of. -/
theorem parse_of_spells {text : List Char} {document : Json} (spells : Spells text document)
    {gap : List Char} (blanks : Blanks gap) :
    parse? (String.ofList (text ++ gap)) = some document := by
  have ends : Ends gap := by
    cases gap with
    | nil => exact ends_of_nil
    | cons c gap => exact ends_of_blanks blanks_of_nil (by
        rcases (List.forall_mem_cons.mp blanks).1 with rfl | rfl | rfl | rfl <;> simp [Ends]) gap
  have read := read_value spells ((text ++ gap).length + 1)
    (by rw [List.length_append]; omega) ends
  rw [parse?, String.toList_ofList]
  simp only [read, skip_only_blanks blanks]
  rfl

/-! ## Written documents -/

mutual

/-- What becomes of a document when it is written and read. -/
def reread : Json → Json
  | .null => .null
  | .bool value => .bool value
  | .integer value => (Numeral.ofInteger value).value
  | .real value => if Ieee.isFinite value then (Numeral.ofReal value).value else .null
  | .string value => .string value
  | .array items => .array (rereadItems items)
  | .object fields => .object (rereadFields fields)
  | .unreadable => .null

def rereadItems : List Json → List Json
  | [] => []
  | item :: rest => item.reread :: rereadItems rest

def rereadFields : List (String × Json) → List (String × Json)
  | [] => []
  | (name, value) :: rest => (name, value.reread) :: rereadFields rest

end

theorem reread_items_eq (items : List Json) : rereadItems items = items.map reread := by
  induction items with
  | nil => rfl
  | cons item rest ih => rw [rereadItems, ih]; rfl

theorem reread_fields_eq (fields : List (String × Json)) :
    rereadFields fields = fields.map fun field => (field.1, field.2.reread) := by
  induction fields with
  | nil => rfl
  | cons field rest ih => rw [rereadFields, ih]; rfl

theorem spells_of_blanks {blanks : List Char} (areBlank : Blanks blanks) {text : List Char}
    {document : Json} (spells : Spells text document) : Spells (blanks ++ text) document := by
  induction blanks with
  | nil => exact spells
  | cons c blanks ih =>
      obtain ⟨blank, more⟩ := List.forall_mem_cons.mp areBlank
      exact .blank blank (ih more)

theorem spells_integer (value : Int) :
    Spells (writeInteger value) (Json.integer value).reread := by
  rw [Numeral.text_of_integer, reread]
  exact .number (Numeral.formed_of_integer value)

theorem spells_real (value : Float) : Spells (writeReal value) (Json.real value).reread := by
  rw [reread]
  split
  · rename_i finite
    rw [Numeral.text_of_real finite]
    exact .number (Numeral.formed_of_real value)
  · rename_i infinite
    rw [writeReal, if_neg infinite]
    exact .null

theorem blanks_of_new_line (level : Nat) : Blanks (newLine level) := by
  intro c member
  rcases List.mem_cons.mp member with rfl | blank
  · exact .inr (.inl rfl)
  · exact .inl (List.eq_of_mem_replicate blank)

mutual

/-- The text of a document with one item to a line. -/
theorem spells_pretty (document : Json) (level : Nat) :
    Spells (document.writePretty level) document.reread := by
  match document with
  | .null => exact .null
  | .unreadable => exact .null
  | .bool value => exact .bool value
  | .integer value => exact spells_integer value
  | .real value => exact spells_real value
  | .string value => exact .string value
  | .array [] => exact .emptyArray blanks_of_nil
  | .object [] => exact .emptyObject blanks_of_nil
  | .array (item :: rest) =>
      have first := spells_of_blanks (blanks_of_new_line (level + 1)) (spells_pretty item (level + 1))
      have items := spells_more_items rest (level + 1) (blanks_of_new_line level) first
      rw [writePretty, reread, rereadItems]
      simp only [List.append_assoc, List.cons_append] at items ⊢
      exact .array items
  | .object ((name, value) :: rest) =>
      have first := Spells.blank (.inl rfl) (spells_pretty value (level + 1))
      have fields := spells_more_fields rest (level + 1) (blanks_of_new_line level) name
        (blanks_of_new_line (level + 1)) first
      rw [writePretty, reread, rereadFields]
      simp only [List.append_assoc, List.cons_append, List.nil_append] at fields ⊢
      exact .object fields

theorem spells_more_items (rest : List Json) (level : Nat) {closing : List Char}
    (blanks : Blanks closing) {text : List Char} {item : Json} (spells : Spells text item) :
    SpellsItems (text ++ (writeMoreItems level rest ++ (closing ++ [']'])))
      (item :: rereadItems rest) := by
  match rest with
  | [] => exact .last spells blanks
  | next :: rest =>
      have second := spells_of_blanks (blanks_of_new_line level) (spells_pretty next level)
      have others := spells_more_items rest level blanks second
      rw [writeMoreItems, rereadItems]
      simp only [List.append_assoc, List.cons_append] at others ⊢
      exact .more spells blanks_of_nil others

theorem spells_more_fields (rest : List (String × Json)) (level : Nat) {closing : List Char}
    (blanks : Blanks closing) (name : String) {front text : List Char} {value : Json}
    (before : Blanks front) (spells : Spells text value) :
    SpellsFields
      (front ++ writeString name ++ [] ++ ':' ::
        (text ++ (writeMoreFields level rest ++ (closing ++ ['\x7d']))))
      ((name, value) :: rereadFields rest) := by
  match rest with
  | [] => exact .last name before blanks_of_nil spells blanks
  | (next, second) :: rest =>
      have value := Spells.blank (.inl rfl) (spells_pretty second level)
      have others := spells_more_fields rest level blanks next (blanks_of_new_line level) value
      rw [writeMoreFields, rereadFields]
      have whole := SpellsFields.more name before blanks_of_nil spells blanks_of_nil others
      simp only [List.append_assoc, List.cons_append, List.nil_append] at whole ⊢
      exact whole

end

/-- The text of a document is read as what becomes of the document. -/
theorem parse_pretty (document : Json) : parse? document.pretty = some document.reread := by
  have parsed := parse_of_spells (spells_pretty document 0) blanks_of_nil
  rwa [List.append_nil] at parsed

end Achievements.Json
