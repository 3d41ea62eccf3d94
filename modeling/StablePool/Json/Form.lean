import StablePool.Json.Spelling
import StablePool.Word

/-!
# Types with a JSON form

A type has a JSON form if its values can be turned into JSON values and back. Its texts are then
the texts of those JSON values: `encode` writes one without blanks, and `decode?` reads any. An
object stands for named fields in any order; a field may be given once at most, and keys that name
no field are passed over.
-/

namespace StablePool

/-- A way to turn values into JSON and back. -/
class JsonForm (α : Type) where
  toJson : α → Json
  ofJson? : Json → Option α

export JsonForm (toJson ofJson?)

/-- The text of a value. -/
def encode {α : Type} [JsonForm α] (a : α) : String := String.ofList (toJson a).render

/-- The value of a text. -/
def decode? {α : Type} [JsonForm α] (text : String) : Option α := do
  let value ← Json.parse? text.toList
  ofJson? value

/-- Values that are read back from their JSON form, which is spelled by the rules. -/
class LawfulJsonForm (α : Type) [JsonForm α] : Prop where
  ofJson?_toJson (a : α) : ofJson? (toJson a) = some a
  isSpelled_toJson (a : α) : (toJson a).IsSpelled

export LawfulJsonForm (ofJson?_toJson isSpelled_toJson)

attribute [simp] ofJson?_toJson

/-- A value is read back from its text. -/
theorem decode?_encode {α : Type} [JsonForm α] [LawfulJsonForm α] (a : α) :
    decode? (encode a) = some a := by
  simp [decode?, encode, Json.parse?_render (isSpelled_toJson a)]

instance {w : Nat} : JsonForm (Word w) where
  toJson a := .ofNat a.val
  ofJson? json := do
    let n ← json.natural?
    Word.ofNat? n

instance {w : Nat} : LawfulJsonForm (Word w) where
  ofJson?_toJson a := by simp [toJson, ofJson?, Json.natural?_ofNat]
  isSpelled_toJson a := Json.isSpelled_ofNat a.val

instance {α : Type} [JsonForm α] : JsonForm (List α) where
  toJson entries := .array (entries.map toJson)
  ofJson?
    | .array items => items.mapM ofJson?
    | _ => none

/-- Entries are read back one by one. -/
theorem mapM_ofJson?_map_toJson {α : Type} [JsonForm α] [LawfulJsonForm α] (entries : List α) :
    (entries.map toJson).mapM ofJson? = some entries := by
  induction entries with
  | nil => rfl
  | cons a entries ih => simp [ih]

instance {α : Type} [JsonForm α] [LawfulJsonForm α] : LawfulJsonForm (List α) where
  ofJson?_toJson entries := mapM_ofJson?_map_toJson entries
  isSpelled_toJson entries := Json.isSpelled_array (by simp [isSpelled_toJson])

namespace Json

/-- The fields of an object: its members, under what their keys stand for. -/
abbrev Fields := List (List Char × Json)

/-- The field of a member, if its key stands for something. -/
def field? (member : List Char × Json) : Option (List Char × Json) :=
  (unescape member.1).map fun name => (name, member.2)

/-- The fields of a value, if it is an object and every key stands for something. -/
def fields? : Json → Option Fields
  | object members => members.mapM field?
  | _ => none

/-- An object has its members as fields if every key stands for itself. -/
theorem fields?_object {members : Fields}
    (h : ∀ member ∈ members, unescape member.1 = some member.1) :
    (object members).fields? = some members := by
  rw [fields?]
  induction members with
  | nil => rfl
  | cons member members ih =>
    simp only [List.forall_mem_cons] at h
    simp [field?, h.1, ih h.2]

/-- The values given for a field. -/
def Fields.values (fields : Fields) (name : String) : List Json :=
  (fields.filter fun field => field.1 = key name).map Prod.snd

/-- The value of a field that must be given once. -/
def Fields.required? {α : Type} [JsonForm α] (fields : Fields) (name : String) : Option α :=
  match fields.values name with
  | [value] => ofJson? value
  | _ => none

/-- The value of a field that may be left out for a default. -/
def Fields.optional? {α : Type} [JsonForm α] (fields : Fields) (name : String) (otherwise : α) :
    Option α :=
  match fields.values name with
  | [] => some otherwise
  | [value] => ofJson? value
  | _ => none

end Json

end StablePool
