import StablePool.Json.Token

/-!
# JSON values

A value is written without blanks, so its text is the spelling of its tokens. Numbers, strings and
keys keep their spelling, and the members of an object their order; a key may occur more than once.
-/

namespace StablePool

/-- A JSON value, with numbers, strings and keys as they are spelled. -/
inductive Json where
  | null
  | bool (value : Bool)
  | number (spelled : List Char)
  | string (spelled : List Char)
  | array (items : List Json)
  | object (members : List (List Char × Json))

namespace Json

mutual

/-- The tokens of a value. -/
def tokens : Json → List Token
  | null => [.null]
  | bool value => [.bool value]
  | number spelled => [.number spelled]
  | string spelled => [.string spelled]
  | array items => .openArray :: itemTokens items
  | object members => .openObject :: memberTokens members

/-- The tokens of the items of an array and of its end. -/
def itemTokens : List Json → List Token
  | [] => [.closeArray]
  | item :: items => item.tokens ++ moreItemTokens items

/-- The tokens of further items of an array and of its end. -/
def moreItemTokens : List Json → List Token
  | [] => [.closeArray]
  | item :: items => .comma :: item.tokens ++ moreItemTokens items

/-- The tokens of the members of an object and of its end. -/
def memberTokens : List (List Char × Json) → List Token
  | [] => [.closeObject]
  | (key, value) :: members =>
    .string key :: .colon :: value.tokens ++ moreMemberTokens members

/-- The tokens of further members of an object and of its end. -/
def moreMemberTokens : List (List Char × Json) → List Token
  | [] => [.closeObject]
  | (key, value) :: members =>
    .comma :: .string key :: .colon :: value.tokens ++ moreMemberTokens members

end

/-- The text of a sequence of tokens, without blanks. -/
def spellAll (tokens : List Token) : List Char := tokens.flatMap Token.spelling

/-- All numbers, strings and keys of a value are spelled by the rules. -/
def IsSpelled (value : Json) : Prop := ∀ token ∈ value.tokens, token.IsSpelled

/-- The text of a value, without blanks. -/
def render (value : Json) : List Char := spellAll value.tokens

/-- Further items are spelled if each of them is. -/
theorem isSpelled_moreItemTokens {items : List Json} (h : ∀ item ∈ items, item.IsSpelled) :
    ∀ token ∈ moreItemTokens items, token.IsSpelled := by
  induction items with
  | nil => simp [moreItemTokens, Token.IsSpelled]
  | cons item items ih =>
    simp only [List.forall_mem_cons] at h
    simp only [moreItemTokens, List.cons_append, List.forall_mem_cons, List.forall_mem_append]
    exact ⟨trivial, h.1, ih h.2⟩

/-- An array is spelled if its items are. -/
theorem isSpelled_array {items : List Json} (h : ∀ item ∈ items, item.IsSpelled) :
    (array items).IsSpelled := by
  cases items with
  | nil => simp [IsSpelled, tokens, itemTokens, Token.IsSpelled]
  | cons item items =>
    simp only [List.forall_mem_cons] at h
    simp only [IsSpelled, tokens, itemTokens, List.forall_mem_cons, List.forall_mem_append]
    exact ⟨trivial, h.1, isSpelled_moreItemTokens h.2⟩

/-- Further members are spelled if their keys and values are. -/
theorem isSpelled_moreMemberTokens {members : List (List Char × Json)}
    (h : ∀ member ∈ members, (Token.string member.1).IsSpelled ∧ member.2.IsSpelled) :
    ∀ token ∈ moreMemberTokens members, token.IsSpelled := by
  induction members with
  | nil => simp [moreMemberTokens, Token.IsSpelled]
  | cons member members ih =>
    simp only [List.forall_mem_cons] at h
    simp only [moreMemberTokens, List.cons_append, List.forall_mem_cons, List.forall_mem_append]
    exact ⟨trivial, h.1.1, trivial, h.1.2, ih h.2⟩

/-- An object is spelled if its keys and values are. -/
theorem isSpelled_object {members : List (List Char × Json)}
    (h : ∀ member ∈ members, (Token.string member.1).IsSpelled ∧ member.2.IsSpelled) :
    (object members).IsSpelled := by
  cases members with
  | nil => simp [IsSpelled, tokens, memberTokens, Token.IsSpelled]
  | cons member members =>
    simp only [List.forall_mem_cons] at h
    simp only [IsSpelled, tokens, memberTokens, List.cons_append, List.forall_mem_cons,
      List.forall_mem_append]
    exact ⟨trivial, h.1.1, trivial, h.1.2, isSpelled_moreMemberTokens h.2⟩

end Json

end StablePool
