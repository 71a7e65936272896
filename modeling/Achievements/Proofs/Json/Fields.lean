import Mathlib.Data.List.Forall2
import Achievements.Formula.Document
import Achievements.Proofs.Json.Documents

/-!
# Fields of written documents

What the readers of fields make of a document that was written and read: integers of each width and
lists come back, and a double becomes what its text is read as.
-/

set_option autoImplicit false

namespace Achievements

theorem map_m_eq_some_iff {α β : Type} {read : α → Option β} {items : List α} {values : List β} :
    items.mapM read = some values ↔
      List.Forall₂ (fun item value => read item = some value) items values := by
  induction items generalizing values with
  | nil =>
      rw [List.mapM_nil, List.forall₂_nil_left_iff]
      exact ⟨fun same => (Option.some.inj same).symm, fun same => congrArg some same.symm⟩
  | cons item items ih =>
      rw [List.mapM_cons, List.forall₂_cons_left_iff]
      cases first : read item with
      | none => simp
      | some value =>
          cases rest : items.mapM read with
          | none =>
              simp only [rest, reduceCtorEq, false_iff] at ih
              simp [ih]
          | some others =>
              simp only [rest, Option.some.injEq] at ih
              simp [← ih, eq_comm]

theorem is_some_of_map_m {α β : Type} {read : α → Option β} (items : List α) :
    (items.mapM read).isSome = true ↔ ∀ item ∈ items, (read item).isSome = true := by
  induction items with
  | nil => simp
  | cons item items ih =>
      rw [List.mapM_cons, List.forall_mem_cons, ← ih]
      cases read item <;> cases items.mapM read <;> simp

namespace Json

/-! ## Integers -/

theorem as_integer_of_bounds {low high value : Int} (above : low ≤ value) (below : value ≤ high) :
    (Json.integer value).asInteger? low high = some value := by
  rw [asInteger?, if_pos ⟨above, below⟩]

theorem as_byte_of_integer (byte : UInt8) : (Json.integer byte.toNat).asByte? = some byte := by
  have small := byte.toNat_lt
  rw [asByte?, as_integer_of_bounds (by omega) (by omega), Option.map_some, Int.toNat_natCast,
    UInt8.ofNat_toNat]

theorem as_uint32_of_integer (word : UInt32) :
    (Json.integer word.toNat).asUInt32? = some word := by
  have small := word.toNat_lt
  rw [asUInt32?, as_integer_of_bounds (by omega) (by omega), Option.map_some, Int.toNat_natCast,
    UInt32.ofNat_toNat]

theorem as_int64_of_integer (value : Int64) :
    (Json.integer value.toInt).asInt64? = some value := by
  have above := value.le_toInt
  have below := value.toInt_lt
  rw [asInt64?, as_integer_of_bounds (by omega) (by omega), Option.map_some, Int64.ofInt_toInt]

theorem value_of_byte (byte : UInt8) :
    (Numeral.ofInteger byte.toNat).value = .integer byte.toNat := by
  have small := byte.toNat_lt
  exact Numeral.value_of_integer ⟨by omega, by omega⟩

theorem value_of_uint32 (word : UInt32) :
    (Numeral.ofInteger word.toNat).value = .integer word.toNat := by
  have small := word.toNat_lt
  exact Numeral.value_of_integer ⟨by omega, by omega⟩

theorem value_of_int64 (value : Int64) :
    (Numeral.ofInteger value.toInt).value = .integer value.toInt := by
  have above := value.le_toInt
  have below := value.toInt_lt
  exact Numeral.value_of_integer ⟨by omega, by omega⟩

/-! ## Lists -/

/-- Documents that are read as the members of a list make an array that is read as the list. -/
theorem as_list_of_forall {α : Type} {read : Json → Option α} {items : List Json} {values : List α}
    (reads : List.Forall₂ (fun item value => read item = some value) items values) :
    (Json.array items).asList? read = some values :=
  map_m_eq_some_iff.mpr reads

theorem as_list_of_reread {α β : Type} (write : α → Json) (read : Json → Option β)
    (values : List α) :
    (Json.array (values.map write)).reread.asList? read =
      values.mapM fun value => read (write value).reread := by
  rw [reread, reread_items_eq, asList?, List.mapM_map, List.mapM_map]
  rfl

theorem reread_of_items {α : Type} {related : Json → α → Prop} {items : List Json}
    {values : List α} (relate : List.Forall₂ related items values)
    (stay : ∀ item value, related item value → item.reread = item) :
    (Json.array items).reread = .array items := by
  rw [reread]
  induction relate with
  | nil => rfl
  | cons first _ ih => rw [rereadItems, stay _ _ first, Json.array.inj ih]

/-! ## Doubles -/

/-- What a double is read as from its own text. -/
def rereadReal? (value : Float) : Option Float :=
  (Json.real value).reread.asReal?

/-- A double that its own text is read as. -/
def Lasting (value : Float) : Prop :=
  rereadReal? value = some value

end Json

end Achievements
