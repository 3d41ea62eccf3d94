import StablePool.Checked

/-!
# Words and checked arithmetic

A word of width `w` is a natural number below `2 ^ w`. Amounts are words of 128 bits; products of
amounts are formed in words of 256 bits, and no operation wraps or saturates unless its name says
so. Each operation has two lemmas: what it yields, as an equation between natural numbers, and
exactly when it is refused.
-/

namespace StablePool

-- Powers of numbers are the ones of the core library, whatever else is in scope.
attribute [local instance (high)] instPowNat instNatPowNat

/-- A natural number below `2 ^ w`. -/
@[ext] structure Word (w : Nat) where
  val : Nat
  val_lt : val < 2 ^ w
deriving DecidableEq

/-- A quantity of a token, in native or in price-scaled units. -/
abbrev Amount := Word 128

/-- A word wide enough for every product of two amounts. -/
abbrev Wide := Word 256

namespace Word

variable {w : Nat}

instance : OfNat (Word w) 0 := ⟨0, Nat.two_pow_pos w⟩

instance : OfNat Amount 1 := ⟨1, by decide⟩

instance : Inhabited (Word w) := ⟨0⟩

instance : LE (Word w) := ⟨fun a b => a.val ≤ b.val⟩

instance : LT (Word w) := ⟨fun a b => a.val < b.val⟩

instance (a b : Word w) : Decidable (a ≤ b) := inferInstanceAs (Decidable (a.val ≤ b.val))

instance (a b : Word w) : Decidable (a < b) := inferInstanceAs (Decidable (a.val < b.val))

instance : ToString (Word w) := ⟨fun a => toString a.val⟩

@[simp] theorem val_zero : (0 : Word w).val = 0 := rfl

@[simp] theorem val_one : (1 : Amount).val = 1 := rfl

/-- Words are ordered by value. -/
theorem le_iff {a b : Word w} : a ≤ b ↔ a.val ≤ b.val := Iff.rfl

/-- Zero is the only word of value zero. -/
theorem eq_zero_iff {a : Word w} : a = 0 ↔ a.val = 0 := Word.ext_iff

/-- A word written out by its value, which is checked to fit as it is written. -/
def lit (n : Nat) (fits : n < 2 ^ w := by decide) : Word w := ⟨n, fits⟩

/-- The word of value `n`, if there is one. -/
def ofNat? (n : Nat) : Option (Word w) :=
  if h : n < 2 ^ w then some ⟨n, h⟩ else none

/-- A number has at most one word. -/
theorem ofNat?_eq_some_iff {n : Nat} {a : Word w} : ofNat? n = some a ↔ a.val = n := by
  unfold ofNat?
  split
  · simp only [Option.some.injEq, Word.ext_iff]
    exact eq_comm
  · next h =>
    simp only [reduceCtorEq, false_iff]
    rintro rfl
    exact h a.val_lt

@[simp] theorem ofNat?_val (a : Word w) : ofNat? a.val = some a := ofNat?_eq_some_iff.2 rfl

/-- The word of value `n`, which must fit. -/
def fit (n : Nat) (tooLarge : Error) : Checked (Word w) :=
  if h : n < 2 ^ w then .ok ⟨n, h⟩ else .error tooLarge

theorem fit_eq_ok_iff {n : Nat} {tooLarge : Error} {a : Word w} :
    fit n tooLarge = .ok a ↔ a.val = n := by
  unfold fit
  split
  · simp only [Except.ok.injEq, Word.ext_iff]
    exact eq_comm
  · next h =>
    simp only [reduceCtorEq, false_iff]
    rintro rfl
    exact h a.val_lt

theorem fit_eq_error_iff {n : Nat} {tooLarge cause : Error} :
    (fit n tooLarge : Checked (Word w)) = .error cause ↔ 2 ^ w ≤ n ∧ tooLarge = cause := by
  unfold fit
  split
  · next h => simp [Nat.not_le.2 h]
  · next h => simp [Nat.not_lt.1 h]

/-- The sum of two words. -/
def add (a b : Word w) (step : String) : Checked (Word w) :=
  fit (a.val + b.val) (.overflow step)

theorem add_eq_ok_iff {a b c : Word w} {step : String} :
    a.add b step = .ok c ↔ c.val = a.val + b.val := fit_eq_ok_iff

theorem add_eq_error_iff {a b : Word w} {step : String} {cause : Error} :
    a.add b step = .error cause ↔ 2 ^ w ≤ a.val + b.val ∧ .overflow step = cause :=
  fit_eq_error_iff

/-- A sum that fits is not refused. -/
theorem exists_add_eq_ok (step : String) {a b : Word w} (h : a.val + b.val < 2 ^ w) :
    ∃ c, a.add b step = .ok c :=
  ⟨⟨a.val + b.val, h⟩, add_eq_ok_iff.2 rfl⟩

/-- The product of two words. -/
def mul (a b : Word w) (step : String) : Checked (Word w) :=
  fit (a.val * b.val) (.overflow step)

theorem mul_eq_ok_iff {a b c : Word w} {step : String} :
    a.mul b step = .ok c ↔ c.val = a.val * b.val := fit_eq_ok_iff

theorem mul_eq_error_iff {a b : Word w} {step : String} {cause : Error} :
    a.mul b step = .error cause ↔ 2 ^ w ≤ a.val * b.val ∧ .overflow step = cause :=
  fit_eq_error_iff

/-- The product of a count and a word. -/
def times (count : Nat) (a : Word w) (step : String) : Checked (Word w) :=
  fit (count * a.val) (.overflow step)

theorem times_eq_ok_iff {count : Nat} {a c : Word w} {step : String} :
    times count a step = .ok c ↔ c.val = count * a.val := fit_eq_ok_iff

theorem times_eq_error_iff {count : Nat} {a : Word w} {step : String} {cause : Error} :
    times count a step = .error cause ↔ 2 ^ w ≤ count * a.val ∧ .overflow step = cause :=
  fit_eq_error_iff

/-- A power of a count. An exponent of `w` or more is too large for any base above one, and such a
power is never formed. -/
def power (base exponent : Nat) (step : String) : Checked (Word w) :=
  if 2 ≤ base ∧ w ≤ exponent then .error (.overflow step)
  else fit (base ^ exponent) (.overflow step)

/-- A large exponent takes every base above one out of range. -/
theorem two_pow_le_pow {base exponent : Nat} (h : 2 ≤ base ∧ w ≤ exponent) :
    2 ^ w ≤ base ^ exponent :=
  Nat.le_trans (Nat.pow_le_pow_right Nat.two_pos h.2) (Nat.pow_le_pow_left h.1 exponent)

theorem power_eq_ok_iff {base exponent : Nat} {c : Word w} {step : String} :
    power base exponent step = .ok c ↔ c.val = base ^ exponent := by
  unfold power
  split
  · next h =>
    have := two_pow_le_pow h
    have := c.val_lt
    simp only [reduceCtorEq, false_iff]
    omega
  · exact fit_eq_ok_iff

theorem power_eq_error_iff {base exponent : Nat} {step : String} {cause : Error} :
    (power base exponent step : Checked (Word w)) = .error cause ↔
      2 ^ w ≤ base ^ exponent ∧ .overflow step = cause := by
  unfold power
  split
  · next h => simp [two_pow_le_pow h]
  · exact fit_eq_error_iff

/-- The difference of two words, stopped at zero. -/
def monus (a b : Word w) : Word w :=
  ⟨a.val - b.val, Nat.lt_of_le_of_lt (Nat.sub_le ..) a.val_lt⟩

@[simp] theorem val_monus (a b : Word w) : (a.monus b).val = a.val - b.val := rfl

/-- The difference of two words, refused with a given cause if it would be negative. -/
def minus (a b : Word w) (short : Error) : Checked (Word w) :=
  if b ≤ a then .ok (a.monus b) else .error short

theorem minus_eq_ok_iff {a b c : Word w} {short : Error} :
    a.minus b short = .ok c ↔ c.val + b.val = a.val := by
  unfold minus
  split
  · next h =>
    simp only [Except.ok.injEq, Word.ext_iff, val_monus]
    have := le_iff.1 h
    omega
  · next h =>
    have := mt le_iff.2 h
    simp only [reduceCtorEq, false_iff]
    omega

theorem minus_eq_error_iff {a b : Word w} {short cause : Error} :
    a.minus b short = .error cause ↔ a.val < b.val ∧ short = cause := by
  unfold minus
  split
  · next h => simp [Nat.not_lt.2 (le_iff.1 h)]
  · next h => simp [Nat.not_le.1 (mt le_iff.2 h)]

/-- The difference of two words. -/
def sub (a b : Word w) (step : String) : Checked (Word w) :=
  a.minus b (.underflow step)

theorem sub_eq_ok_iff {a b c : Word w} {step : String} :
    a.sub b step = .ok c ↔ c.val + b.val = a.val := minus_eq_ok_iff

theorem sub_eq_error_iff {a b : Word w} {step : String} {cause : Error} :
    a.sub b step = .error cause ↔ a.val < b.val ∧ .underflow step = cause := minus_eq_error_iff

/-- A difference that is not negative is not refused. -/
theorem exists_sub_eq_ok (step : String) {a b : Word w} (h : b.val ≤ a.val) :
    ∃ c, a.sub b step = .ok c :=
  ⟨a.monus b, sub_eq_ok_iff.2 (Nat.sub_add_cancel h)⟩

/-- The quotient of two words, rounded down. -/
def div (a b : Word w) (step : String) : Checked (Word w) :=
  if b = 0 then .error (.divisionByZero step)
  else .ok ⟨a.val / b.val, Nat.lt_of_le_of_lt (Nat.div_le_self ..) a.val_lt⟩

theorem div_eq_ok_iff {a b c : Word w} {step : String} :
    a.div b step = .ok c ↔ 0 < b.val ∧ c.val = a.val / b.val := by
  unfold div
  split
  · next h => simp [eq_zero_iff.1 h]
  · next h =>
    simp only [Except.ok.injEq, Word.ext_iff, Nat.pos_of_ne_zero (mt eq_zero_iff.2 h), true_and]
    exact eq_comm

theorem div_eq_error_iff {a b : Word w} {step : String} {cause : Error} :
    a.div b step = .error cause ↔ b.val = 0 ∧ .divisionByZero step = cause := by
  unfold div
  split
  · next h => simp [eq_zero_iff.1 h]
  · next h => simp [mt eq_zero_iff.2 h]

/-- How far two words lie apart. -/
def distance (a b : Word w) : Word w :=
  if a ≤ b then b.monus a else a.monus b

/-- One of the two differences is zero. -/
theorem val_distance (a b : Word w) :
    (a.distance b).val = (a.val - b.val) + (b.val - a.val) := by
  unfold distance
  split
  · next h => simp [Nat.sub_eq_zero_of_le (le_iff.1 h)]
  · next h => simp [Nat.sub_eq_zero_of_le (Nat.le_of_not_le (mt le_iff.2 h))]

/-- An amount as a wide word. -/
def widen (a : Amount) : Wide :=
  ⟨a.val, Nat.lt_of_lt_of_le a.val_lt (Nat.pow_le_pow_right Nat.two_pos (by decide))⟩

@[simp] theorem val_widen (a : Amount) : a.widen.val = a.val := rfl

/-- A wide word as an amount, which it must fit. -/
def narrow (a : Wide) (step : String) : Checked Amount :=
  fit a.val (.overflow step)

theorem narrow_eq_ok_iff {a : Wide} {c : Amount} {step : String} :
    a.narrow step = .ok c ↔ c.val = a.val := fit_eq_ok_iff

theorem narrow_eq_error_iff {a : Wide} {step : String} {cause : Error} :
    a.narrow step = .error cause ↔ 2 ^ (128 : Nat) ≤ a.val ∧ .overflow step = cause := fit_eq_error_iff

/-- The quotient of a product of two amounts, rounded down once. -/
def mulDiv (a b divisor : Amount) (step : String) : Checked Amount :=
  if divisor = 0 then .error (.divisionByZero step)
  else fit (a.val * b.val / divisor.val) (.overflow step)

theorem mulDiv_eq_ok_iff {a b divisor c : Amount} {step : String} :
    mulDiv a b divisor step = .ok c ↔ 0 < divisor.val ∧ c.val = a.val * b.val / divisor.val := by
  unfold mulDiv
  split
  · next h => simp [eq_zero_iff.1 h]
  · next h => simp [fit_eq_ok_iff, Nat.pos_of_ne_zero (mt eq_zero_iff.2 h)]

theorem mulDiv_eq_error_iff {a b divisor : Amount} {step : String} {cause : Error} :
    mulDiv a b divisor step = .error cause ↔
      divisor.val = 0 ∧ .divisionByZero step = cause ∨
        0 < divisor.val ∧ 2 ^ (128 : Nat) ≤ a.val * b.val / divisor.val ∧ .overflow step = cause := by
  unfold mulDiv
  split
  · next h => simp [eq_zero_iff.1 h]
  · next h =>
    have h := mt eq_zero_iff.2 h
    simp [fit_eq_error_iff, h, Nat.pos_of_ne_zero h]

end Word

end StablePool
