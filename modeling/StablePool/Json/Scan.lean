import StablePool.Json.Token

/-!
# Scanning a JSON text

Scanning cuts a text into its tokens. It depends on a token only up to the end of its spelling, so
spelled tokens are found again in front of any text that cannot continue them. Only a number can be
continued, by a character that may occur in a number.
-/

namespace StablePool.Json

/-- The tokens of a text, which must consist of tokens and blanks alone. -/
def scan : List Char → Option (List Token)
  | [] => some []
  | c :: cs =>
    if isBlank c then scan cs
    else
      match _h : Token.split (c :: cs) with
      | none => none
      | some (token, rest) => (scan rest).map (token :: ·)
termination_by cs => cs.length
decreasing_by
  · exact Nat.lt_succ_self cs.length
  · exact Token.length_lt_of_split _h

/-- The tokens of a text after a token in front of it. -/
theorem scan_of_split {c : Char} {cs rest : List Char} {token : Token}
    (hblank : isBlank c = false) (h : Token.split (c :: cs) = some (token, rest)) :
    scan (c :: cs) = (scan rest).map (token :: ·) := by
  rw [scan, if_neg (by simp [hblank])]
  split <;> simp_all

/-- What follows a string does not matter for finding its end. -/
theorem splitString_append {cs spelled rest : List Char}
    (h : splitString cs = some (spelled, rest)) (more : List Char) :
    splitString (cs ++ more) = some (spelled, rest ++ more) := by
  fun_induction splitString cs generalizing spelled rest with
  | case1 | case4 | case6 | case7 => simp at h
  | case2 =>
    obtain ⟨rfl, rfl⟩ := Prod.mk.inj (Option.some.inj h)
    simp [splitString]
  | case3 a b c d cs hhex ih =>
    obtain ⟨tail, htail, rfl⟩ := extend_eq_some_iff.1 h
    simp only [List.cons_append, splitString, hhex, if_true, ih htail, extend]
  | case5 c cs hshort hescaped ih =>
    obtain ⟨tail, htail, rfl⟩ := extend_eq_some_iff.1 h
    have hc : c ≠ 'u' := by rintro rfl; exact absurd hescaped (by decide)
    have hs : splitString ('\\' :: c :: (cs ++ more)) =
        extend ['\\', c] (splitString (cs ++ more)) := by
      rw [splitString]
      · rw [if_pos hescaped]
      · intro a b d e rest h; exact absurd h hc
    simp only [List.cons_append, hs, ih htail, extend]
  | case8 c cs hquote hlong hshort hplain ih =>
    obtain ⟨tail, htail, rfl⟩ := extend_eq_some_iff.1 h
    have hc : c ≠ '\\' := by rintro rfl; exact hplain (by decide)
    have hs : splitString (c :: (cs ++ more)) = extend [c] (splitString (cs ++ more)) := by
      rw [splitString]
      · rw [if_neg hplain]
      · exact hquote
      · intro _ _ _ _ _ h; exact absurd h hc
      · intro _ _ h; exact absurd h hc
    simp only [List.cons_append, hs, ih htail, extend]

/-- A spelled number is split from whatever cannot continue it. -/
theorem splitNumber_append {spelled rest : List Char} (h : isNumber spelled = true)
    (hchars : spelled.all isNumberChar = true)
    (hrest : ∀ c ∈ rest.head?, isNumberChar c = false) :
    splitNumber (spelled ++ rest) = some (spelled, rest) := by
  have htake : (spelled ++ rest).takeWhile isNumberChar = spelled := by
    rw [List.takeWhile_append_of_pos (by simpa using hchars)]
    cases rest with
    | nil => simp
    | cons c rest => simp [hrest c (by simp)]
  have hdrop : (spelled ++ rest).dropWhile isNumberChar = rest := by
    rw [List.dropWhile_append_of_pos (by simpa using hchars)]
    cases rest with
    | nil => simp
    | cons c rest => simp [hrest c (by simp)]
  simp [splitNumber, htake, hdrop, h]

/-- A digit may occur in a number. -/
theorem isDigit_imp_isNumberChar {c : Char} (h : c.isDigit = true) : isNumberChar c = true := by
  simp [isNumberChar, h]

/-- Digits may occur in a number. -/
theorem all_isNumberChar_of_isDigits {cs : List Char} (h : isDigits cs = true) :
    ∀ c ∈ cs, isNumberChar c = true := by
  simp only [isDigits, Bool.and_eq_true, List.all_eq_true] at h
  exact fun c hc => isDigit_imp_isNumberChar (h.2 c hc)

/-- The characters of an exponent may occur in a number. -/
theorem all_isNumberChar_of_isExponent {cs : List Char} (h : isExponent cs = true) :
    ∀ c ∈ cs, isNumberChar c = true := by
  unfold isExponent at h
  split at h
  · exact List.forall_mem_cons.2 ⟨by decide, all_isNumberChar_of_isDigits h⟩
  · exact List.forall_mem_cons.2 ⟨by decide, all_isNumberChar_of_isDigits h⟩
  · exact all_isNumberChar_of_isDigits h

/-- The characters of the end of a number may occur in a number. -/
theorem all_isNumberChar_of_isScale {cs : List Char} (h : isScale cs = true) :
    ∀ c ∈ cs, isNumberChar c = true := by
  cases cs with
  | nil => simp
  | cons c cs =>
    simp only [isScale, Bool.and_eq_true, Bool.or_eq_true, decide_eq_true_eq] at h
    refine List.forall_mem_cons.2 ⟨?_, all_isNumberChar_of_isExponent h.2⟩
    rcases h.1 with rfl | rfl <;> decide

/-- Digits at the front of a text are characters of a number, and so are all if the rest are. -/
theorem all_isNumberChar_of_dropWhile {cs : List Char}
    (h : ∀ c ∈ cs.dropWhile Char.isDigit, isNumberChar c = true) :
    ∀ c ∈ cs, isNumberChar c = true := by
  intro c hc
  rw [← List.takeWhile_append_dropWhile (p := Char.isDigit) (l := cs), List.mem_append] at hc
  rcases hc with hc | hc
  · exact isDigit_imp_isNumberChar (List.all_eq_true.1 List.all_takeWhile c hc)
  · exact h c hc

/-- The characters of a fraction may occur in a number. -/
theorem all_isNumberChar_of_isFraction {cs : List Char} (h : isFraction cs = true) :
    ∀ c ∈ cs, isNumberChar c = true := by
  unfold isFraction at h
  split at h
  · simp only [Bool.and_eq_true] at h
    exact List.forall_mem_cons.2
      ⟨by decide, all_isNumberChar_of_dropWhile (all_isNumberChar_of_isScale h.2)⟩
  · exact all_isNumberChar_of_isScale h

/-- The characters of a magnitude may occur in a number. -/
theorem all_isNumberChar_of_isMagnitude {cs : List Char} (h : isMagnitude cs = true) :
    ∀ c ∈ cs, isNumberChar c = true := by
  unfold isMagnitude at h
  split at h
  · exact List.forall_mem_cons.2 ⟨by decide, all_isNumberChar_of_isFraction h⟩
  · simp only [Bool.and_eq_true] at h
    exact all_isNumberChar_of_dropWhile (all_isNumberChar_of_isFraction h.2)

/-- A number consists of the characters that may occur in one. -/
theorem all_isNumberChar_of_isNumber {cs : List Char} (h : isNumber cs = true) :
    ∀ c ∈ cs, isNumberChar c = true := by
  unfold isNumber at h
  split at h
  · exact List.forall_mem_cons.2 ⟨by decide, all_isNumberChar_of_isMagnitude h⟩
  · exact all_isNumberChar_of_isMagnitude h

/-- A spelled token is split off the front of a text that cannot continue it. -/
theorem Token.split_spelling {token : Token} (h : token.IsSpelled) {rest : List Char}
    (hrest : token.EndsBefore rest) :
    Token.split (token.spelling ++ rest) = some (token, rest) := by
  cases token with
  | openArray | closeArray | openObject | closeObject | comma | colon | null => rfl
  | bool value => cases value <;> rfl
  | number spelled =>
    obtain ⟨c, cs, rfl⟩ := List.exists_cons_of_length_pos (length_pos_of_isNumber h)
    have hc : isNumberChar c = true := all_isNumberChar_of_isNumber h c (by simp)
    have hsplit := splitNumber_append h
      (List.all_eq_true.2 (all_isNumberChar_of_isNumber h)) hrest
    rw [spelling, List.cons_append] at *
    unfold Token.split
    split
    case h_11 => rw [hsplit]; rfl
    all_goals
      next heq =>
      obtain ⟨rfl, -⟩ := List.cons.inj heq
      exact absurd hc (by decide)
  | string spelled =>
    have hsplit := splitString_append h rest
    simp only [List.append_assoc, List.singleton_append, List.nil_append] at hsplit
    simp [spelling, Token.split, hsplit]

/-- The spelling of a token starts with no blank. -/
theorem Token.exists_spelling_eq_cons {token : Token} (h : token.IsSpelled) :
    ∃ c cs, token.spelling = c :: cs ∧ isBlank c = false := by
  cases token with
  | openArray | closeArray | openObject | closeObject | comma | colon | null =>
    exact ⟨_, _, rfl, rfl⟩
  | bool value => cases value <;> exact ⟨_, _, rfl, rfl⟩
  | string spelled => exact ⟨_, _, rfl, rfl⟩
  | number spelled =>
    obtain ⟨c, cs, rfl⟩ := List.exists_cons_of_length_pos (length_pos_of_isNumber h)
    refine ⟨c, cs, rfl, Bool.eq_false_iff.2 fun hblank => ?_⟩
    have hc : isNumberChar c = true := all_isNumberChar_of_isNumber h c (by simp)
    simp only [isBlank, Bool.or_eq_true, decide_eq_true_eq] at hblank
    rcases hblank with ((rfl | rfl) | rfl) | rfl <;> exact absurd hc (by decide)

/-- A spelled token is scanned off the front of a text that cannot continue it. -/
theorem scan_spelling {token : Token} (h : token.IsSpelled) {rest : List Char}
    (hrest : token.EndsBefore rest) :
    scan (token.spelling ++ rest) = (scan rest).map (token :: ·) := by
  obtain ⟨c, cs, hcons, hblank⟩ := token.exists_spelling_eq_cons h
  have hsplit := Token.split_spelling h hrest
  rw [hcons, List.cons_append] at *
  exact scan_of_split hblank hsplit

end StablePool.Json
