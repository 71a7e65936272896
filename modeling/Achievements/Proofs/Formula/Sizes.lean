import Achievements.Proofs.Formula.Queue

/-!
# How much there is to read

What is left of a split token is its duration, written anew, and an end of the token. The duration may
be written with other digits than before, so this is no part of the token; but it has no more digits,
and all of them are ASCII. Hence not only its characters but also its bytes become fewer, and a formula
gives no more clauses than it has bytes.
-/

set_option autoImplicit false

namespace Achievements

namespace Text

/-! ## Bytes -/

/-- The number of bytes of a text in UTF-8. -/
def byteCount (text : List Char) : Nat :=
  (String.ofList text).utf8ByteSize

@[simp] theorem byte_count_nil : byteCount [] = 0 := rfl

@[simp] theorem byte_count_cons (c : Char) (rest : List Char) :
    byteCount (c :: rest) = c.utf8Size + byteCount rest := by
  rw [byteCount, String.ofList_cons, String.utf8ByteSize_append, String.utf8ByteSize_singleton,
    byteCount]

theorem byte_count_append (first second : List Char) :
    byteCount (first ++ second) = byteCount first + byteCount second := by
  rw [byteCount, String.ofList_append, String.utf8ByteSize_append, byteCount, byteCount]

theorem byte_count_of_ascii {text : List Char} (ascii : ∀ c ∈ text, c.utf8Size = 1) :
    byteCount text = text.length := by
  induction text with
  | nil => rfl
  | cons c rest ih =>
      obtain ⟨first, others⟩ := List.forall_mem_cons.mp ascii
      rw [byte_count_cons, first, ih others, List.length_cons, Nat.add_comm]

/-- A part of a text has no more bytes beyond one for each character than the text. -/
theorem byte_count_of_sublist {part text : List Char} (sublist : part.Sublist text) :
    byteCount part + text.length ≤ byteCount text + part.length := by
  induction sublist with
  | slnil => exact Nat.le_refl _
  | cons c _ ih =>
      have one := Char.utf8Size_pos c
      simp only [byte_count_cons, List.length_cons]
      omega
  | cons_cons c _ ih =>
      simp only [byte_count_cons, List.length_cons]
      omega

theorem length_le_byte_count (text : List Char) : text.length ≤ byteCount text := by
  have whole := byte_count_of_sublist (List.nil_sublist text)
  rwa [byte_count_nil, Nat.zero_add] at whole

theorem ascii_of_mem_decimal (number : Nat) : ∀ c ∈ decimal number, c.utf8Size = 1 :=
  fun _ digit => of_mem_decimal (·.utf8Size = 1) number (by decide) digit

/-! ## Blanks -/

theorem trim_start_sublist (text : List Char) : (trimStart text).Sublist text :=
  List.dropWhile_sublist isBlank

theorem trim_end_sublist (text : List Char) : (trimEnd text).Sublist text := by
  have reversed := (List.dropWhile_sublist isBlank (l := text.reverse)).reverse
  rwa [List.reverse_reverse] at reversed

theorem trim_sublist (text : List Char) : (trim text).Sublist text :=
  (trim_end_sublist _).trans (trim_start_sublist text)

/-- Is there a character that is not blank? -/
def isVisible (text : List Char) : Bool :=
  text.any (!isBlank ·)

theorem trim_is_empty (text : List Char) : (trim text).isEmpty = !isVisible text := by
  have all : isVisible text = !text.all isBlank := by
    rw [isVisible, List.not_all_eq_any_not]
  rw [all, Bool.not_not, Bool.eq_iff_iff, List.isEmpty_iff, List.all_eq_true, trim, trimEnd,
    List.reverse_eq_nil_iff, List.dropWhile_eq_nil_iff, trimStart]
  constructor
  · intro blank c member
    rw [← List.takeWhile_append_dropWhile (p := isBlank) (l := text)] at member
    rcases List.mem_append.mp member with taken | dropped
    · exact List.mem_takeWhile_imp taken
    · exact blank c (List.mem_reverse.mpr dropped)
  · intro blank c member
    exact blank c ((List.dropWhile_sublist isBlank).subset (List.mem_reverse.mp member))

end Text

namespace Formula

open Text

variable {framesPerSecond : UInt32}

/-! ## What is left of a token -/

theorem take_flag_sublist (token : List Char) : (takeFlag token).2.Sublist token := by
  unfold takeFlag
  split
  · exact List.Sublist.refl _
  · split
    · exact (List.sublist_cons_self _ _).trans (List.sublist_cons_self _ _)
    · exact List.Sublist.refl _
  · split
    · exact ((List.sublist_cons_self _ _).trans (List.sublist_cons_self _ _)).trans
        (List.sublist_cons_self _ _)
    · exact List.Sublist.refl _
  · exact List.Sublist.refl _

theorem rest_sublist {text : List Char} {duration : Duration}
    (read : readDuration? text = some duration) : duration.rest.Sublist text := by
  rw [readDuration?] at read
  simp only at read
  split at read
  · cases read
  · rename_i c rest dropped
    split at read
    · cases read
      have after : (c :: rest).Sublist text := by
        rw [← dropped]
        exact (List.dropWhile_sublist _).trans (trim_start_sublist text)
      exact (trim_start_sublist rest).trans ((List.sublist_cons_self c rest).trans after)
    · cases read

theorem cut_sublist {symbol text before after : List Char}
    (cut : cutAt? symbol text = some (before, after)) : after.Sublist text := by
  induction text generalizing before with
  | nil => cases cut
  | cons c rest ih =>
      rw [cutAt?] at cut
      split at cut
      · cases cut
        exact List.drop_sublist _ _
      · obtain ⟨⟨front, back⟩, found, same⟩ := Option.map_eq_some_iff.mp cut
        cases same
        exact (ih found).trans (List.sublist_cons_self c rest)

theorem after_sublist {text : List Char} {cut : Cut} (found : findComparison? text = some cut) :
    cut.after.Sublist text := by
  obtain ⟨comparison, _, attempt⟩ := List.exists_of_findSome?_eq_some found
  split at attempt
  · rename_i atSymbol
    split at attempt
    · cases attempt
    · cases attempt
      exact cut_sublist atSymbol
  · cases attempt

theorem tail_sublist {text : List Char} {embedded : Embedded}
    (found : findEmbedded? text = some embedded) : embedded.tail.Sublist text := by
  rw [findEmbedded?] at found
  split at found
  · rename_i atComparison
    split at found
    · rename_i duration atDuration
      cases found
      exact (trim_end_sublist _).trans
        ((rest_sublist atDuration).trans (after_sublist atComparison))
    · cases found
  · cases found

/-- What is left of a token is a duration in its canonical form and some end of the token. -/
structure LeftOver (token extra : List Char) : Prop where
  shape : ∃ seconds tail, extra = decimal seconds ++ 'S' :: tail ∧ tail.Sublist token
  shorter : extra.length + 2 ≤ token.length

theorem shape_of_work {flag : Flag} {frames : UInt32} {work extra : List Char}
    (left : extra ∈ (readWork framesPerSecond flag frames work).2) :
    ∃ seconds tail, extra = decimal seconds ++ 'S' :: tail ∧ tail.Sublist work := by
  unfold readWork at left
  split at left
  · cases left
  · rename_i embedded found
    split at left
    · cases left
    · cases left
      exact ⟨embedded.seconds, embedded.tail, rfl, tail_sublist found⟩

theorem left_over {token extra : List Char} (left : extra ∈ (readToken framesPerSecond token).2) :
    LeftOver token extra where
  shorter := by
    have reading : readToken framesPerSecond token =
        ((readToken framesPerSecond token).1, some extra) := Prod.ext rfl left
    exact readToken_shorter reading
  shape := by
    have flagTaken := take_flag_sublist token
    rw [read_token_eq] at left
    split at left
    · rename_i duration atDuration
      obtain ⟨seconds, tail, shape, sublist⟩ := shape_of_work left
      exact ⟨seconds, tail, shape, sublist.trans ((rest_sublist atDuration).trans flagTaken)⟩
    · obtain ⟨seconds, tail, shape, sublist⟩ := shape_of_work left
      exact ⟨seconds, tail, shape, sublist.trans flagTaken⟩

namespace LeftOver

variable {token extra : List Char} (left : LeftOver token extra)
include left

/-- It starts with a digit. -/
theorem is_visible : isVisible extra = true := by
  obtain ⟨seconds, tail, rfl, -⟩ := left.shape
  rw [isVisible, List.any_append, List.any_cons, Bool.or_eq_true]
  exact Or.inr rfl

theorem ne_nil : extra ≠ [] := by
  rintro rfl
  cases left.is_visible

/-- Its characters that are not in the token are ASCII, so what holds for the characters holds for the
bytes. -/
theorem fewer_bytes : byteCount extra + 2 ≤ byteCount token := by
  have shorter := left.shorter
  obtain ⟨seconds, tail, rfl, sublist⟩ := left.shape
  have digits := byte_count_of_ascii (ascii_of_mem_decimal seconds)
  have mark : Char.utf8Size 'S' = 1 := rfl
  have others := byte_count_of_sublist sublist
  rw [byte_count_append, byte_count_cons, digits, mark]
  rw [List.length_append, List.length_cons] at shorter
  omega

end LeftOver

/-- A duration that does not fit 64 bits, after more zeros than it has digits. -/
example : ((readToken 60 "0xH1=0000000000000000000000999999999999999999999S 2".toList).2.map
    String.ofList) = some "18446744073709551615S2" := by decide

/-! ## Numbers of clauses -/

theorem clauses_of_token (framesPerSecond : UInt32) {token : List Char} (nonempty : token ≠ []) :
    0 < (readClauses framesPerSecond token).length ∧
      (readClauses framesPerSecond token).length ≤ token.length := by
  induction token using readClauses.induct framesPerSecond with
  | case1 token clause last =>
      rw [read_clauses_of_last last]
      exact ⟨Nat.one_pos, List.length_pos_iff.mpr nonempty⟩
  | case2 token clause extra divided ih =>
      have member : extra ∈ (readToken framesPerSecond token).2 := by
        rw [divided]
        rfl
      have left := left_over member
      -- One more clause is paid for by the two characters that are gone.
      have shorter := left.shorter
      have rest := (ih left.ne_nil).2
      rw [read_clauses_of_split divided, List.length_cons]
      exact ⟨Nat.succ_pos _, by omega⟩

theorem clauses_of_tokens (framesPerSecond : UInt32) {all : List (List Char)}
    (nonempty : ∀ token ∈ all, token ≠ []) :
    all.length ≤ (all.flatMap (readClauses framesPerSecond)).length ∧
      (all.flatMap (readClauses framesPerSecond)).length ≤ all.flatten.length := by
  induction all with
  | nil => exact ⟨Nat.le_refl _, Nat.le_refl _⟩
  | cons token all ih =>
      obtain ⟨first, others⟩ := List.forall_mem_cons.mp nonempty
      obtain ⟨positive, bounded⟩ := clauses_of_token framesPerSecond first
      obtain ⟨atLeast, atMost⟩ := ih others
      rw [List.flatMap_cons, List.flatten_cons, List.length_append, List.length_append,
        List.length_cons]
      omega

/-! ## Tokens of a formula -/

theorem flatten_split (separator : Char) (text : List Char) :
    (splitAt separator text).flatten.Sublist text := by
  induction text with
  | nil => exact List.Sublist.refl _
  | cons c rest ih =>
      rw [splitAt]
      split
      · exact ih.cons c
      · obtain ⟨piece, pieces, split⟩ :=
          List.exists_cons_of_ne_nil (split_ne_nil separator rest)
        rw [split] at ih ⊢
        exact ih.cons_cons c

theorem flatten_map_trim (pieces : List (List Char)) :
    (pieces.map trim).flatten.Sublist pieces.flatten := by
  induction pieces with
  | nil => exact List.Sublist.refl _
  | cons piece pieces ih => exact (trim_sublist piece).append ih

/-- The characters of the tokens are characters of the formula. -/
theorem flatten_tokens (text : List Char) : (tokens text).flatten.Sublist text := by
  have kept : (tokens text).flatten.Sublist ((splitAt '_' text).map trim).flatten :=
    List.filter_sublist.flatten
  exact (kept.trans (flatten_map_trim _)).trans (flatten_split '_' text)

theorem tokens_ne_nil {text token : List Char} (member : token ∈ tokens text) : token ≠ [] := by
  rintro rfl
  cases (List.mem_filter.mp member).2

/-- There are as many tokens as pieces that are not blank. -/
theorem length_tokens (text : List Char) :
    (tokens text).length = (splitAt '_' text).countP isVisible := by
  have visible : (fun piece : List Char => !piece.isEmpty) ∘ trim = isVisible := by
    funext piece
    rw [Function.comp_apply, trim_is_empty, Bool.not_not]
  rw [tokens, ← List.countP_eq_length_filter, List.countP_map, visible]

/-- Reading a formula ends after as many turns as it has clauses. What a turn puts back is not blank
and at least two bytes shorter than what it took. There are at least as many clauses as pieces that are
not blank, and no more than bytes. -/
theorem reading_ends (framesPerSecond : UInt32) (text : String) :
    (Queue.of text).Takes framesPerSecond (read framesPerSecond text).length
        ⟨[], read framesPerSecond text⟩ ∧
      (∀ token, ∀ extra ∈ (readToken framesPerSecond token).2,
        isVisible extra = true ∧ byteCount extra + 2 ≤ byteCount token) ∧
      (splitAt '_' text.toList).countP isVisible ≤ (read framesPerSecond text).length ∧
      (read framesPerSecond text).length ≤ text.utf8ByteSize := by
  have bounds := clauses_of_tokens framesPerSecond fun token (member : token ∈ tokens text.toList) =>
    tokens_ne_nil member
  have characters := (flatten_tokens text.toList).length_le
  have bytes : text.toList.length ≤ text.utf8ByteSize := by
    have counted := length_le_byte_count text.toList
    rwa [byteCount, String.ofList_toList] at counted
  refine ⟨Queue.takes_formula framesPerSecond text, ?_, ?_, ?_⟩
  · intro token extra member
    have left := left_over member
    exact ⟨left.is_visible, left.fewer_bytes⟩
  · rw [← length_tokens]
    exact bounds.1
  · exact (bounds.2.trans characters).trans bytes

end Formula

end Achievements
