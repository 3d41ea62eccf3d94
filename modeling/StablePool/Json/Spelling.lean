import StablePool.Json.Reader

/-!
# What numbers and keys stand for

A natural number is spelled by its decimal digits; numbers with a sign, a fraction or an exponent
are not natural numbers here, whatever their value. A key is spelled with escapes. An escape of four
hexadecimal digits names a unit of text, and two units in a row may name one character together; a
unit that lacks its partner stands for nothing.
-/

namespace StablePool.Json

/-- The number spelled by decimal digits alone. -/
def natural? : Json → Option Nat
  | number spelled =>
    if isDigits spelled then some (Nat.ofDigitChars 10 spelled 0) else none
  | _ => none

/-- A natural number in decimal digits. -/
def ofNat (n : Nat) : Json := number (Nat.toDigits 10 n)

/-- A natural number is read back from its digits. -/
theorem natural?_ofNat (n : Nat) : (ofNat n).natural? = some n := by
  have hdigits : isDigits (Nat.toDigits 10 n) = true := by
    have hne : (Nat.toDigits 10 n).isEmpty = false := by
      simp
    have hall : (Nat.toDigits 10 n).all Char.isDigit = true :=
      List.all_eq_true.2 fun _ hc => Nat.isDigit_of_mem_toDigits (by decide) (by decide) hc
    simp [isDigits, hne, hall]
  simp [natural?, ofNat, hdigits, Nat.ofDigitChars_toDigits]

/-- Digits alone are taken whole. -/
theorem takeWhile_of_isDigit {cs : List Char} (h : ∀ c ∈ cs, c.isDigit = true) :
    cs.takeWhile Char.isDigit = cs := by
  induction cs with
  | nil => rfl
  | cons c cs ih => simp_all

/-- Digits alone leave nothing behind. -/
theorem dropWhile_of_isDigit {cs : List Char} (h : ∀ c ∈ cs, c.isDigit = true) :
    cs.dropWhile Char.isDigit = [] := by
  induction cs with
  | nil => rfl
  | cons c cs ih => simp_all

/-- Only zero is written with a leading zero. -/
theorem exists_toDigits_eq_cons {n : Nat} (hn : 0 < n) :
    ∃ c cs, Nat.toDigits 10 n = c :: cs ∧ c ≠ '0' := by
  induction n using Nat.strongRecOn with
  | ind n ih =>
    rcases Nat.lt_or_ge n 10 with h | h
    · exact ⟨n.digitChar, [], Nat.toDigits_of_lt_base h, by simp; omega⟩
    · obtain ⟨c, cs, hcs, hc⟩ := ih (n / 10) (by omega) (by omega)
      exact ⟨c, cs ++ [(n % 10).digitChar],
        by rw [Nat.toDigits_of_base_le (by decide) h, hcs, List.cons_append], hc⟩

/-- The digits of a natural number spell a number. -/
theorem isNumber_toDigits (n : Nat) : isNumber (Nat.toDigits 10 n) = true := by
  rcases Nat.eq_zero_or_pos n with rfl | hn
  · decide
  · obtain ⟨c, cs, hcs, hc⟩ := exists_toDigits_eq_cons hn
    have hdigits : ∀ d ∈ c :: cs, d.isDigit = true := by
      rw [← hcs]
      exact fun d hd => Nat.isDigit_of_mem_toDigits (by decide) (by decide) hd
    have hsign : c ≠ '-' := by
      rintro rfl
      exact absurd (hdigits '-' (by simp)) (by decide)
    rw [hcs, isNumber, isMagnitude]
    · rw [takeWhile_of_isDigit hdigits, dropWhile_of_isDigit hdigits]
      simpa [isDigits, isFraction, isScale] using hdigits
    · exact fun _ h => hc (List.cons.inj h).1
    · exact fun _ h => hsign (List.cons.inj h).1

/-- A natural number is spelled by the rules. -/
theorem isSpelled_ofNat (n : Nat) : (ofNat n).IsSpelled := by
  simpa [IsSpelled, ofNat, tokens, Token.IsSpelled] using isNumber_toDigits n

/-- The value of a hexadecimal digit. -/
def hexValue (c : Char) : Nat :=
  if c.isDigit then c.toNat - '0'.toNat
  else if 'a' ≤ c then c.toNat - 'a'.toNat + 10
  else c.toNat - 'A'.toNat + 10

/-- The character that an escaped one stands for. -/
def escapedValue : Char → Char
  | 'b' => '\x08'
  | 'f' => '\x0c'
  | 'n' => '\n'
  | 'r' => '\r'
  | 't' => '\t'
  | c => c

/-- The units of a spelling: one for each escape and for each character outside of one. -/
def units : List Char → List Nat
  | [] => []
  | '\\' :: 'u' :: a :: b :: c :: d :: rest =>
    [a, b, c, d].foldl (fun n digit => 16 * n + hexValue digit) 0 :: units rest
  | '\\' :: c :: rest => (escapedValue c).toNat :: units rest
  | c :: rest => c.toNat :: units rest

/-- The first of two units that name one character. -/
def isLeading (unit : Nat) : Bool := 0xD800 ≤ unit && unit ≤ 0xDBFF

/-- The second of two units that name one character. -/
def isTrailing (unit : Nat) : Bool := 0xDC00 ≤ unit && unit ≤ 0xDFFF

/-- The characters that units name, if every unit has the partner it needs. -/
def decodeUnits : List Nat → Option (List Char)
  | [] => some []
  | [unit] => if isLeading unit || isTrailing unit then none else some [Char.ofNat unit]
  | unit :: next :: rest =>
    if isLeading unit then
      if isTrailing next then
        (decodeUnits rest).map
          (Char.ofNat (0x10000 + (unit - 0xD800) * 0x400 + (next - 0xDC00)) :: ·)
      else none
    else if isTrailing unit then none
    else (decodeUnits (next :: rest)).map (Char.ofNat unit :: ·)

/-- What a spelled string stands for. -/
def unescape (spelled : List Char) : Option (List Char) := decodeUnits (units spelled)

/-- A key of an object, written without escapes. -/
abbrev key (name : String) : List Char := name.toList

end StablePool.Json
