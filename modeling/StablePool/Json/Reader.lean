import StablePool.Json.Scan
import StablePool.Json.Value

/-!
# Reading a JSON text

A value is read from its tokens one by one, with the arrays and objects that are still open kept on
a stack. A value is read back from its own tokens, and from its text if all of them are spelled by
the rules of the grammar. What else a text may look like is not characterised.
-/

namespace StablePool.Json

/-- An array or object that is still open, with its entries so far, newest first. -/
inductive Frame where
  | array (items : List Json)
  /-- The value of `key` has still to come. -/
  | object (members : List (List Char × Json)) (key : List Char)

/-- What has been read, and what may follow. -/
inductive Progress where
  | needValue (frames : List Frame)
  /-- An array has just been opened: its first item or its end must follow. -/
  | firstItem (frames : List Frame)
  /-- An object has just been opened: its first key or its end must follow. -/
  | firstKey (frames : List Frame)
  | needKey (frames : List Frame) (members : List (List Char × Json))
  | needColon (frames : List Frame) (members : List (List Char × Json)) (key : List Char)
  /-- A value has ended. -/
  | ended (frames : List Frame) (value : Json)

/-- Read the first token of a value. -/
def begin (frames : List Frame) : Token → Option Progress
  | .null => some (.ended frames null)
  | .bool value => some (.ended frames (bool value))
  | .number spelled => some (.ended frames (number spelled))
  | .string spelled => some (.ended frames (string spelled))
  | .openArray => some (.firstItem frames)
  | .openObject => some (.firstKey frames)
  | _ => none

/-- Read one token. -/
def Progress.step : Progress → Token → Option Progress
  | needValue frames, token => begin frames token
  | firstItem frames, .closeArray => some (ended frames (.array []))
  | firstItem frames, token => begin (.array [] :: frames) token
  | firstKey frames, .closeObject => some (ended frames (.object []))
  | firstKey frames, .string key => some (needColon frames [] key)
  | needKey frames members, .string key => some (needColon frames members key)
  | needColon frames members key, .colon => some (needValue (.object members key :: frames))
  | ended (.array items :: frames) value, .comma =>
    some (needValue (.array (value :: items) :: frames))
  | ended (.array items :: frames) value, .closeArray =>
    some (ended frames (.array (value :: items).reverse))
  | ended (.object members key :: frames) value, .comma =>
    some (needKey frames ((key, value) :: members))
  | ended (.object members key :: frames) value, .closeObject =>
    some (ended frames (.object ((key, value) :: members).reverse))
  | _, _ => none

/-- The value that has been read, if nothing is open. -/
def Progress.result? : Progress → Option Json
  | ended [] value => some value
  | _ => none

/-- The value of a sequence of tokens. -/
def ofTokens? (tokens : List Token) : Option Json := do
  let last ← tokens.foldlM Progress.step (.needValue [])
  last.result?

/-- The value of a text. -/
def parse? (text : List Char) : Option Json := do
  let tokens ← scan text
  ofTokens? tokens

/-- A value is never mistaken for the end of an array. -/
theorem foldlM_firstItem (value : Json) (frames : List Frame) (rest : List Token) :
    (value.tokens ++ rest).foldlM Progress.step (.firstItem frames) =
      (value.tokens ++ rest).foldlM Progress.step (.needValue (.array [] :: frames)) := by
  cases value <;> simp [tokens, Progress.step]

mutual

/-- Reading the tokens of a value yields the value, whatever is open and whatever follows. -/
theorem foldlM_tokens (value : Json) (frames : List Frame) (rest : List Token) :
    (value.tokens ++ rest).foldlM Progress.step (.needValue frames) =
      rest.foldlM Progress.step (.ended frames value) := by
  cases value with
  | null | bool | number | string => simp [tokens, Progress.step, begin]
  | array items =>
    cases items with
    | nil => simp [tokens, itemTokens, Progress.step, begin]
    | cons item items =>
      have h := foldlM_moreItemTokens [] item items frames rest
      simp only [tokens, itemTokens, List.cons_append, List.foldlM_cons, Progress.step, begin,
        Option.bind_eq_bind, Option.bind_some, List.append_assoc]
      rw [foldlM_firstItem, foldlM_tokens item, h, List.reverse_nil, List.nil_append]
  | object members =>
    cases members with
    | nil => simp [tokens, memberTokens, Progress.step, begin]
    | cons member members =>
      obtain ⟨key, value⟩ := member
      have h := foldlM_moreMemberTokens [] key value members frames rest
      simp only [tokens, memberTokens, List.cons_append, List.foldlM_cons, Progress.step, begin,
        Option.bind_eq_bind, Option.bind_some, List.append_assoc]
      rw [foldlM_tokens value, h, List.reverse_nil, List.nil_append]

/-- Reading further items completes the array that is open. -/
theorem foldlM_moreItemTokens (before : List Json) (item : Json) (items : List Json)
    (frames : List Frame) (rest : List Token) :
    (moreItemTokens items ++ rest).foldlM Progress.step (.ended (.array before :: frames) item) =
      rest.foldlM Progress.step (.ended frames (array (before.reverse ++ item :: items))) := by
  cases items with
  | nil => simp [moreItemTokens, Progress.step]
  | cons next items =>
    have h := foldlM_moreItemTokens (item :: before) next items frames rest
    simp only [moreItemTokens, List.cons_append, List.foldlM_cons, Progress.step,
      Option.bind_eq_bind, Option.bind_some, List.append_assoc]
    rw [foldlM_tokens next, h, List.reverse_cons, List.append_assoc, List.singleton_append]

/-- Reading further members completes the object that is open. -/
theorem foldlM_moreMemberTokens (before : List (List Char × Json)) (key : List Char) (value : Json)
    (members : List (List Char × Json)) (frames : List Frame) (rest : List Token) :
    (moreMemberTokens members ++ rest).foldlM Progress.step
        (.ended (.object before key :: frames) value) =
      rest.foldlM Progress.step
        (.ended frames (object (before.reverse ++ (key, value) :: members))) := by
  cases members with
  | nil => simp [moreMemberTokens, Progress.step]
  | cons member members =>
    obtain ⟨nextKey, next⟩ := member
    have h := foldlM_moreMemberTokens ((key, value) :: before) nextKey next members frames rest
    simp only [moreMemberTokens, List.cons_append, List.foldlM_cons, Progress.step,
      Option.bind_eq_bind, Option.bind_some, List.append_assoc]
    rw [foldlM_tokens next, h, List.reverse_cons, List.append_assoc, List.singleton_append]

end

/-- A value is read back from its tokens. -/
theorem ofTokens?_tokens (value : Json) : ofTokens? value.tokens = some value := by
  have h := foldlM_tokens value [] []
  rw [List.append_nil] at h
  simp [ofTokens?, h, Progress.result?]

/-- The text of tokens starts with the first of them. -/
theorem spellAll_cons (token : Token) (tokens : List Token) (rest : List Char) :
    spellAll (token :: tokens) ++ rest = token.spelling ++ (spellAll tokens ++ rest) := by
  simp [spellAll]

/-- The text of two sequences of tokens is one after the other. -/
theorem spellAll_append (front back : List Token) (rest : List Char) :
    spellAll (front ++ back) ++ rest = spellAll front ++ (spellAll back ++ rest) := by
  simp [spellAll]

/-- What follows an item starts with no character of a number. -/
theorem endsBefore_moreItemTokens (items : List Json) (rest : List Char) :
    ∀ c ∈ (spellAll (moreItemTokens items) ++ rest).head?, isNumberChar c = false := by
  cases items <;> simp [spellAll, moreItemTokens, Token.spelling] <;> decide

/-- What follows the value of a member starts with no character of a number. -/
theorem endsBefore_moreMemberTokens (members : List (List Char × Json)) (rest : List Char) :
    ∀ c ∈ (spellAll (moreMemberTokens members) ++ rest).head?, isNumberChar c = false := by
  cases members <;> simp [spellAll, moreMemberTokens, Token.spelling] <;> decide

/-- A token in front of a scanned text is scanned first. -/
theorem scan_cons {token : Token} {text rest : List Char} {tokens : List Token}
    (htext : scan text = (scan rest).map (tokens ++ ·))
    (h : token.IsSpelled := by trivial) (hend : token.EndsBefore text := by trivial) :
    scan (token.spelling ++ text) = (scan rest).map (token :: tokens ++ ·) := by
  rw [scan_spelling h hend, htext, Option.map_map]
  rfl

/-- What is scanned off in two parts is scanned off as a whole. -/
theorem scan_append {text middle rest : List Char} {front back : List Token}
    (hfront : scan text = (scan middle).map (front ++ ·))
    (hback : scan middle = (scan rest).map (back ++ ·)) :
    scan text = (scan rest).map (front ++ back ++ ·) := by
  rw [hfront, hback, Option.map_map]
  congr 1
  funext tail
  simp

mutual

/-- The tokens of a value are scanned off the front of a text that cannot continue it. -/
theorem scan_tokens (value : Json) (h : ∀ token ∈ value.tokens, token.IsSpelled)
    {rest : List Char} (hrest : ∀ c ∈ rest.head?, isNumberChar c = false) :
    scan (spellAll value.tokens ++ rest) = (scan rest).map (value.tokens ++ ·) := by
  cases value with
  | null | bool | string =>
    simp only [tokens, spellAll_cons, List.mem_singleton, forall_eq] at h ⊢
    exact scan_cons (by simp [spellAll]) h
  | number =>
    simp only [tokens, spellAll_cons, List.mem_singleton, forall_eq] at h ⊢
    exact scan_cons (by simp [spellAll]) h hrest
  | array items =>
    cases items with
    | nil =>
      simp only [tokens, itemTokens, spellAll_cons]
      exact scan_cons (scan_cons (by simp [spellAll]))
    | cons item items =>
      simp only [tokens, itemTokens, List.forall_mem_cons, List.forall_mem_append] at h
      simp only [tokens, itemTokens, spellAll_cons, spellAll_append]
      refine scan_cons ?_
      exact scan_append (scan_tokens item h.2.1 (endsBefore_moreItemTokens items rest))
        (scan_moreItemTokens items h.2.2)
  | object members =>
    cases members with
    | nil =>
      simp only [tokens, memberTokens, spellAll_cons]
      exact scan_cons (scan_cons (by simp [spellAll]))
    | cons member members =>
      obtain ⟨key, value⟩ := member
      simp only [tokens, memberTokens, List.forall_mem_cons, List.forall_mem_append,
        List.cons_append] at h
      simp only [tokens, memberTokens, spellAll_cons, spellAll_append, List.cons_append]
      refine scan_cons (scan_cons (scan_cons ?_) h.2.1)
      exact scan_append (scan_tokens value h.2.2.2.1 (endsBefore_moreMemberTokens members rest))
        (scan_moreMemberTokens members h.2.2.2.2)

/-- The tokens of further items are scanned off the front of any text. -/
theorem scan_moreItemTokens (items : List Json)
    (h : ∀ token ∈ moreItemTokens items, token.IsSpelled) {rest : List Char} :
    scan (spellAll (moreItemTokens items) ++ rest) =
      (scan rest).map (moreItemTokens items ++ ·) := by
  cases items with
  | nil =>
    simp only [moreItemTokens, spellAll_cons]
    exact scan_cons (by simp [spellAll])
  | cons item items =>
    simp only [moreItemTokens, List.forall_mem_cons, List.forall_mem_append, List.cons_append] at h
    simp only [moreItemTokens, spellAll_cons, spellAll_append, List.cons_append]
    refine scan_cons ?_
    exact scan_append (scan_tokens item h.2.1 (endsBefore_moreItemTokens items rest))
      (scan_moreItemTokens items h.2.2)

/-- The tokens of further members are scanned off the front of any text. -/
theorem scan_moreMemberTokens (members : List (List Char × Json))
    (h : ∀ token ∈ moreMemberTokens members, token.IsSpelled) {rest : List Char} :
    scan (spellAll (moreMemberTokens members) ++ rest) =
      (scan rest).map (moreMemberTokens members ++ ·) := by
  cases members with
  | nil =>
    simp only [moreMemberTokens, spellAll_cons]
    exact scan_cons (by simp [spellAll])
  | cons member members =>
    obtain ⟨key, value⟩ := member
    simp only [moreMemberTokens, List.forall_mem_cons, List.forall_mem_append,
      List.cons_append] at h
    simp only [moreMemberTokens, spellAll_cons, spellAll_append, List.cons_append]
    refine scan_cons (scan_cons (scan_cons ?_) h.2.1)
    exact scan_append (scan_tokens value h.2.2.2.1 (endsBefore_moreMemberTokens members rest))
      (scan_moreMemberTokens members h.2.2.2.2)

end

/-- A value with spelled tokens is read back from its text. -/
theorem parse?_render {value : Json} (h : value.IsSpelled) :
    parse? value.render = some value := by
  have hnil : ∀ c ∈ ([] : List Char).head?, isNumberChar c = false := by simp
  have hscan := scan_tokens value h hnil
  rw [List.append_nil] at hscan
  simp [parse?, render, hscan, scan, ofTokens?_tokens]

end StablePool.Json
