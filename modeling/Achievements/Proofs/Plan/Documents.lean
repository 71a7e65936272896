import Achievements.Plan.Document
import Achievements.Proofs.Json.Fields

/-!
# Plans are read back from their texts

A plan has more than one document, since a full mask may be left out and so may an empty list of
writes. `Describes` relates a plan to all of them, and each text of each of them is read as the plan.
-/

set_option autoImplicit false

namespace Achievements

namespace ByteWrite

/-- The documents of a write: a full mask may be left out. -/
inductive Describes : Json → ByteWrite → Prop
  | full (write : ByteWrite) : Describes write.toJson write
  | unmasked (address : UInt32) (value : UInt8) :
      Describes (.object [("address", .integer address.toNat), ("value", .integer value.toNat)])
        ⟨address, value, 255⟩

theorem of_json_of_describes {document : Json} {write : ByteWrite}
    (describes : Describes document write) : ofJson? document = some write := by
  cases describes with
  | full write =>
      have fields : write.toJson.fields? ["address", "value", "mask"] =
          some [some (.integer write.address.toNat), some (.integer write.value.toNat),
            some (.integer write.mask.toNat)] := rfl
      rw [ofJson?, fields]
      simp only [Option.bind_eq_bind, Option.bind_some, Json.required, Json.optional,
        Json.as_uint32_of_integer, Json.as_byte_of_integer]
  | unmasked address value =>
      have fields : Json.fields? ["address", "value", "mask"]
          (.object [("address", .integer address.toNat), ("value", .integer value.toNat)]) =
          some [some (.integer address.toNat), some (.integer value.toNat), none] := rfl
      rw [ofJson?, fields]
      simp only [Option.bind_eq_bind, Option.bind_some, Json.required, Json.optional,
        Json.as_uint32_of_integer, Json.as_byte_of_integer]

theorem reread_of_describes {document : Json} {write : ByteWrite}
    (describes : Describes document write) : document.reread = document := by
  cases describes <;>
    simp only [toJson, Json.reread, Json.rereadFields, Json.value_of_byte, Json.value_of_uint32]

end ByteWrite

namespace Step

/-- The documents of a step: an empty list of writes may be left out. -/
inductive Describes : Json → Step → Prop
  | full (comment : String) {documents : List Json} {writes : List ByteWrite}
      (describe : List.Forall₂ ByteWrite.Describes documents writes) :
      Describes (.object [("comment", .string comment), ("writes", .array documents)])
        ⟨comment, writes⟩
  | idle (comment : String) : Describes (.object [("comment", .string comment)]) ⟨comment, []⟩

theorem of_json_of_describes {document : Json} {step : Step} (describes : Describes document step) :
    ofJson? document = some step := by
  cases describes with
  | full comment describe =>
      rename_i documents writes
      have fields : Json.fields? ["comment", "writes"]
          (.object [("comment", .string comment), ("writes", .array documents)]) =
          some [some (.string comment), some (.array documents)] := rfl
      have read := Json.as_list_of_forall
        (describe.imp fun _ _ describes => ByteWrite.of_json_of_describes describes)
      rw [ofJson?, fields]
      simp only [Option.bind_eq_bind, Option.bind_some, Json.required, Json.optional,
        Json.asString?, read]
  | idle comment =>
      have fields : Json.fields? ["comment", "writes"] (.object [("comment", .string comment)]) =
          some [some (.string comment), none] := rfl
      rw [ofJson?, fields]
      simp only [Option.bind_eq_bind, Option.bind_some, Json.required, Json.optional,
        Json.asString?]

theorem reread_of_describes {document : Json} {step : Step}
    (describes : Describes document step) : document.reread = document := by
  cases describes with
  | full comment describe =>
      have stay := Json.reread_of_items describe fun _ _ => ByteWrite.reread_of_describes
      rw [Json.reread, Json.rereadFields, Json.rereadFields, Json.rereadFields, stay, Json.reread]
  | idle comment => simp only [Json.reread, Json.rereadFields]

theorem describes_to_json (step : Step) : Describes step.toJson step := by
  apply Describes.full step.comment
  rw [List.forall₂_map_left_iff, List.forall₂_same]
  exact fun write _ => .full write

end Step

namespace Plan

/-- The documents of a plan. -/
def Describes (document : Json) (plan : Plan) : Prop :=
  ∃ documents, document = .object [("steps", .array documents)] ∧
    List.Forall₂ Step.Describes documents plan.steps

theorem of_json_of_describes {document : Json} {plan : Plan} (describes : Describes document plan) :
    ofJson? document = some plan := by
  obtain ⟨documents, rfl, describe⟩ := describes
  have fields : Json.fields? ["steps"] (.object [("steps", .array documents)]) =
      some [some (.array documents)] := rfl
  have read := Json.as_list_of_forall
    (describe.imp fun _ _ describes => Step.of_json_of_describes describes)
  rw [ofJson?, fields]
  simp only [Option.bind_eq_bind, Option.bind_some, Json.required, read]

theorem reread_of_describes {document : Json} {plan : Plan}
    (describes : Describes document plan) : document.reread = document := by
  obtain ⟨documents, rfl, describe⟩ := describes
  have stay := Json.reread_of_items describe fun _ _ => Step.reread_of_describes
  rw [Json.reread, Json.rereadFields, Json.rereadFields, stay]

theorem describes_to_json (plan : Plan) : Describes plan.toJson plan := by
  refine ⟨plan.steps.map Step.toJson, rfl, ?_⟩
  rw [List.forall₂_map_left_iff, List.forall₂_same]
  exact fun step _ => step.describes_to_json

/-- Every text of every document of a plan is read as the plan, the written one among them. -/
theorem plan_is_read_from_its_texts (plan : Plan) :
    ofText? plan.toText = some plan ∧
      ∀ document, Describes document plan →
        ofText? document.pretty = some plan ∧
          ∀ text gap, Json.Spells text document → Json.Blanks gap →
            ofText? (String.ofList (text ++ gap)) = some plan := by
  have pretty {document : Json} (describes : Describes document plan) :
      ofText? document.pretty = some plan := by
    rw [ofText?, Json.parse_pretty, reread_of_describes describes, Option.bind_some]
    exact of_json_of_describes describes
  refine ⟨pretty (describes_to_json plan), fun document describes => ⟨pretty describes, ?_⟩⟩
  intro text gap spells blanks
  rw [ofText?, Json.parse_of_spells spells blanks, Option.bind_some]
  exact of_json_of_describes describes

/-- A plan on one line, without the mask of its write and without the writes of its second step. -/
def sparse : List Char :=
  "\x7b\"steps\":[\x7b\"comment\":\"arm\",\"writes\":[\x7b\"address\":1,\"value\":2\x7d]\x7d,".toList ++
    "\x7b\"comment\":\"wait\"\x7d]\x7d".toList

theorem sparse_plan_is_read :
    ofText? (String.ofList (sparse ++ ['\n'])) =
      some ⟨[⟨"arm", [⟨1, 2, 255⟩]⟩, ⟨"wait", []⟩]⟩ := by
  let one : Json := .object [("address", .integer 1), ("value", .integer 2)]
  let armed : Json := .object [("comment", .string "arm"), ("writes", .array [one])]
  let idle : Json := .object [("comment", .string "wait")]
  have nothing := Json.blanks_of_nil
  have address : Json.Spells "1".toList (.integer 1) := .number (Json.Numeral.formed_of_integer 1)
  have value : Json.Spells "2".toList (.integer 2) := .number (Json.Numeral.formed_of_integer 2)
  have write : Json.Spells "\x7b\"address\":1,\"value\":2\x7d".toList one :=
    .object (.more "address" nothing nothing address nothing
      (.last "value" nothing nothing value nothing))
  have first : Json.Spells
      "\x7b\"comment\":\"arm\",\"writes\":[\x7b\"address\":1,\"value\":2\x7d]\x7d".toList armed :=
    .object (.more "comment" nothing nothing (.string "arm") nothing
      (.last "writes" nothing nothing (.array (.last write nothing)) nothing))
  have second : Json.Spells "\x7b\"comment\":\"wait\"\x7d".toList idle :=
    .object (.last "comment" nothing nothing (.string "wait") nothing)
  have spells : Json.Spells _ (.object [("steps", .array [armed, idle])]) :=
    .object (.last "steps" nothing nothing
      (.array (.more first nothing (.last second nothing))) nothing)
  have gap : Json.Blanks ['\n'] := by simp [Json.Blanks, Json.IsBlank]
  have describes : Describes (.object [("steps", .array [armed, idle])])
      ⟨[⟨"arm", [⟨1, 2, 255⟩]⟩, ⟨"wait", []⟩]⟩ :=
    ⟨_, rfl, .cons (.full "arm" (.cons (.unmasked 1 2) .nil)) (.cons (.idle "wait") .nil)⟩
  exact ((plan_is_read_from_its_texts _).2 _ describes).2 sparse ['\n'] spells gap

end Plan

end Achievements
