/-!
# JSON tokens

A JSON text is a sequence of tokens with blanks between them. Numbers and strings keep their
spelling: a number is any spelling that the grammar allows, and a string is what stands between its
quotes, with every escape as written. What an escape stands for is decided elsewhere.
-/

namespace StablePool.Json

/-- The smallest meaningful piece of a JSON text. -/
inductive Token where
  | openArray
  | closeArray
  | openObject
  | closeObject
  | comma
  | colon
  | null
  | bool (value : Bool)
  | number (spelled : List Char)
  | string (spelled : List Char)
deriving DecidableEq

/-- The blanks that may stand between tokens. -/
def isBlank (c : Char) : Bool := c = ' ' || c = '\n' || c = '\r' || c = '\t'

/-- The characters that may occur in a number. -/
def isNumberChar (c : Char) : Bool :=
  c.isDigit || c = '-' || c = '+' || c = '.' || c = 'e' || c = 'E'

/-- One digit or more, and nothing else. -/
def isDigits (cs : List Char) : Bool := !cs.isEmpty && cs.all Char.isDigit

/-- An exponent after its letter: digits, perhaps after a sign. -/
def isExponent : List Char → Bool
  | '+' :: cs => isDigits cs
  | '-' :: cs => isDigits cs
  | cs => isDigits cs

/-- The end of a number after its integer and its fraction. -/
def isScale : List Char → Bool
  | [] => true
  | c :: cs => (c = 'e' || c = 'E') && isExponent cs

/-- The end of a number after its integer. -/
def isFraction : List Char → Bool
  | '.' :: cs => isDigits (cs.takeWhile Char.isDigit) && isScale (cs.dropWhile Char.isDigit)
  | cs => isScale cs

/-- A number without its sign. Its integer has no leading zero. -/
def isMagnitude : List Char → Bool
  | '0' :: cs => isFraction cs
  | cs => isDigits (cs.takeWhile Char.isDigit) && isFraction (cs.dropWhile Char.isDigit)

/-- The spellings of a number. -/
def isNumber : List Char → Bool
  | '-' :: cs => isMagnitude cs
  | cs => isMagnitude cs

/-- The digits of a hexadecimal number. -/
def isHexDigit (c : Char) : Bool :=
  c.isDigit || ('a' ≤ c && c ≤ 'f') || ('A' ≤ c && c ≤ 'F')

/-- The characters that may follow a backslash, `u` apart. -/
def isEscaped (c : Char) : Bool := "\"\\/bfnrt".toList.contains c

/-- Put characters in front of a spelling that has been split from its rest. -/
def extend (front : List Char) : Option (List Char × List Char) → Option (List Char × List Char)
  | some (spelled, rest) => some (front ++ spelled, rest)
  | none => none

/-- Split a text after an opening quote at the closing one. -/
def splitString : List Char → Option (List Char × List Char)
  | [] => none
  | '"' :: rest => some ([], rest)
  | '\\' :: 'u' :: a :: b :: c :: d :: rest =>
    if [a, b, c, d].all isHexDigit then extend ['\\', 'u', a, b, c, d] (splitString rest) else none
  | '\\' :: c :: rest => if isEscaped c then extend ['\\', c] (splitString rest) else none
  | c :: rest => if c < ' ' || c = '\\' then none else extend [c] (splitString rest)

/-- Split a text at the end of the number it starts with. -/
def splitNumber (cs : List Char) : Option (List Char × List Char) :=
  let spelled := cs.takeWhile isNumberChar
  if isNumber spelled then some (spelled, cs.dropWhile isNumberChar) else none

/-- The token that a text starts with, and the rest of the text. -/
def Token.split : List Char → Option (Token × List Char)
  | '[' :: rest => some (openArray, rest)
  | ']' :: rest => some (closeArray, rest)
  | '\x7b' :: rest => some (openObject, rest)
  | '\x7d' :: rest => some (closeObject, rest)
  | ',' :: rest => some (comma, rest)
  | ':' :: rest => some (colon, rest)
  | 'n' :: 'u' :: 'l' :: 'l' :: rest => some (null, rest)
  | 't' :: 'r' :: 'u' :: 'e' :: rest => some (bool true, rest)
  | 'f' :: 'a' :: 'l' :: 's' :: 'e' :: rest => some (bool false, rest)
  | '"' :: rest => (splitString rest).map fun (spelled, rest) => (string spelled, rest)
  | cs => (splitNumber cs).map fun (spelled, rest) => (number spelled, rest)

/-- The written form of a token. -/
def Token.spelling : Token → List Char
  | openArray => ['[']
  | closeArray => [']']
  | openObject => ['\x7b']
  | closeObject => ['\x7d']
  | comma => [',']
  | colon => [':']
  | null => "null".toList
  | bool true => "true".toList
  | bool false => "false".toList
  | number spelled => spelled
  | string spelled => '"' :: spelled ++ ['"']

/-- The spelling of a number or a string keeps the rules of the grammar. -/
def Token.IsSpelled : Token → Prop
  | number spelled => isNumber spelled = true
  | string spelled => splitString (spelled ++ ['"']) = some (spelled, [])
  | _ => True

instance (token : Token) : Decidable token.IsSpelled := by
  cases token <;> unfold Token.IsSpelled <;> infer_instance

/-- A text that cannot continue a token; only a number can be continued. -/
def Token.EndsBefore : Token → List Char → Prop
  | number _, rest => ∀ c ∈ rest.head?, isNumberChar c = false
  | _, _ => True

/-- A spelling is extended exactly if there is one. -/
theorem extend_eq_some_iff {front spelled rest : List Char}
    {split : Option (List Char × List Char)} :
    extend front split = some (spelled, rest) ↔
      ∃ tail, split = some (tail, rest) ∧ spelled = front ++ tail := by
  rcases split with _ | ⟨tail, rest'⟩
  · simp [extend]
  · simp only [extend, Option.some.injEq, Prod.mk.injEq]
    exact ⟨fun ⟨h, hr⟩ => ⟨tail, ⟨rfl, hr⟩, h.symm⟩,
      fun ⟨_, ⟨h, hr⟩, hs⟩ => ⟨by rw [hs, h], hr⟩⟩

/-- Splitting a string loses only the closing quote. -/
theorem append_of_splitString {cs spelled rest : List Char}
    (h : splitString cs = some (spelled, rest)) : cs = spelled ++ '"' :: rest := by
  fun_induction splitString cs generalizing spelled rest with
  | case1 => simp at h
  | case2 => simp_all
  | case3 a b c d cs _ ih | case5 c cs _ _ ih | case8 c cs _ _ _ _ ih =>
    obtain ⟨tail, htail, rfl⟩ := extend_eq_some_iff.1 h
    simp [ih htail]
  | case4 | case6 | case7 => simp at h

/-- Splitting a number loses nothing. -/
theorem append_of_splitNumber {cs spelled rest : List Char}
    (h : splitNumber cs = some (spelled, rest)) : cs = spelled ++ rest := by
  simp only [splitNumber, Option.ite_none_right_eq_some, Option.some.injEq, Prod.mk.injEq] at h
  rw [← h.2.1, ← h.2.2, List.takeWhile_append_dropWhile]

/-- What is split off as a number is one. -/
theorem isNumber_of_splitNumber {cs spelled rest : List Char}
    (h : splitNumber cs = some (spelled, rest)) : isNumber spelled = true := by
  simp only [splitNumber, Option.ite_none_right_eq_some, Option.some.injEq, Prod.mk.injEq] at h
  exact h.2.1 ▸ h.1

/-- A number has at least one character. -/
theorem length_pos_of_isNumber {cs : List Char} (h : isNumber cs = true) : 0 < cs.length := by
  cases cs with
  | nil => exact absurd h (by decide)
  | cons c cs => exact Nat.succ_pos _

/-- A text is the spelling of its first token, followed by the rest. -/
theorem Token.append_of_split {cs rest : List Char} {token : Token}
    (h : Token.split cs = some (token, rest)) : cs = token.spelling ++ rest := by
  unfold Token.split at h
  split at h
  case h_10 cs =>
    obtain ⟨⟨spelled, tail⟩, hsplit, heq⟩ := Option.map_eq_some_iff.1 h
    obtain ⟨rfl, rfl⟩ := Prod.mk.inj heq
    simp [Token.spelling, append_of_splitString hsplit]
  case h_11 cs _ _ _ _ _ _ _ _ _ _ =>
    obtain ⟨⟨spelled, tail⟩, hsplit, heq⟩ := Option.map_eq_some_iff.1 h
    obtain ⟨rfl, rfl⟩ := Prod.mk.inj heq
    exact append_of_splitNumber hsplit
  all_goals
    obtain ⟨rfl, rfl⟩ := Prod.mk.inj (Option.some.inj h)
    rfl

/-- A token that is split off is spelled with at least one character. -/
theorem Token.length_spelling_pos_of_split {cs rest : List Char} {token : Token}
    (h : Token.split cs = some (token, rest)) : 0 < token.spelling.length := by
  unfold Token.split at h
  split at h
  case h_10 cs =>
    obtain ⟨⟨spelled, tail⟩, -, heq⟩ := Option.map_eq_some_iff.1 h
    obtain ⟨rfl, rfl⟩ := Prod.mk.inj heq
    exact Nat.succ_pos _
  case h_11 cs _ _ _ _ _ _ _ _ _ _ =>
    obtain ⟨⟨spelled, tail⟩, hsplit, heq⟩ := Option.map_eq_some_iff.1 h
    obtain ⟨rfl, rfl⟩ := Prod.mk.inj heq
    exact length_pos_of_isNumber (isNumber_of_splitNumber hsplit)
  all_goals
    obtain ⟨rfl, rfl⟩ := Prod.mk.inj (Option.some.inj h)
    exact Nat.succ_pos _

/-- The first token of a text takes up some of it. -/
theorem Token.length_lt_of_split {cs rest : List Char} {token : Token}
    (h : Token.split cs = some (token, rest)) : rest.length < cs.length := by
  have hpos := Token.length_spelling_pos_of_split h
  rw [Token.append_of_split h, List.length_append]
  omega

end StablePool.Json
