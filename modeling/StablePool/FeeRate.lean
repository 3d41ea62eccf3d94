import StablePool.Word

/-!
# Fee rates

A fee rate is a number of ten-thousandths. Any 32-bit numerator can be written down; a rate is
valid if it charges at most the whole amount. Uneven deposits and withdrawals are charged a smaller
rate, derived from the trade fee and the number of assets.
-/

namespace StablePool

/-- A fee in ten-thousandths of an amount. -/
@[ext] structure FeeRate where
  numerator : Word 32
deriving DecidableEq

namespace FeeRate

/-- The numerator of a fee that takes everything. -/
def denominator : Nat := 10000

/-- No fee. -/
def zero : FeeRate := ⟨0⟩

/-- A fee that takes everything. -/
def full : FeeRate := ⟨denominator, by decide⟩

instance : Inhabited FeeRate := ⟨zero⟩

/-- A valid rate charges at most the whole amount. -/
def IsValid (rate : FeeRate) : Prop := rate.numerator.val ≤ denominator

instance (rate : FeeRate) : Decidable rate.IsValid :=
  inferInstanceAs (Decidable (rate.numerator.val ≤ denominator))

/-- Charging nothing is valid. -/
theorem isValid_zero : zero.IsValid := Nat.zero_le _

/-- The fee on an amount, rounded down. -/
def apply (rate : FeeRate) (amount : Amount) : Checked Amount :=
  Word.fit (amount.val * rate.numerator.val / denominator) (.overflow "fee apply")

/-- The fee is the quotient, rounded down, if that fits an amount. -/
theorem apply_eq_ok_iff {rate : FeeRate} {amount fee : Amount} :
    rate.apply amount = .ok fee ↔ fee.val = amount.val * rate.numerator.val / denominator :=
  Word.fit_eq_ok_iff

/-- A valid rate never charges more than the amount. -/
theorem IsValid.charge_le {rate : FeeRate} (h : rate.IsValid) (amount : Nat) :
    amount * rate.numerator.val / denominator ≤ amount :=
  Nat.div_le_of_le_mul (by rw [Nat.mul_comm denominator]; exact Nat.mul_le_mul_left amount h)

/-- A valid rate below the full one charges less than a positive amount. -/
theorem IsValid.charge_lt {rate : FeeRate} (h : rate.IsValid) (hfull : rate ≠ full) {amount : Nat}
    (hpos : 0 < amount) : amount * rate.numerator.val / denominator < amount := by
  have hlt : rate.numerator.val < denominator :=
    Nat.lt_of_le_of_ne h fun heq => hfull (FeeRate.ext (Word.ext heq))
  apply Nat.div_lt_of_lt_mul
  rw [Nat.mul_comm denominator]
  exact Nat.mul_lt_mul_of_pos_left hlt hpos

/-- A valid rate can be charged on every amount. -/
theorem IsValid.exists_apply_eq_ok {rate : FeeRate} (h : rate.IsValid) (amount : Amount) :
    ∃ fee, rate.apply amount = .ok fee ∧ fee ≤ amount := by
  have hle := h.charge_le amount.val
  exact ⟨⟨_, Nat.lt_of_le_of_lt hle amount.val_lt⟩, apply_eq_ok_iff.2 rfl, hle⟩

/-- The rate charged on uneven deposits and withdrawals of a pool of `count` assets: the trade fee
times `count / (4 * (count - 1))`, rounded down. -/
def imbalanceRate (rate : FeeRate) (count : Nat) : Checked FeeRate := do
  ensure (2 ≤ count) (.invalidConfiguration "imbalance fee needs at least two assets")
  let scaled : Word 64 ← Word.fit (rate.numerator.val * count) (.overflow "imbalance fee numerator")
  let numerator ← Word.fit (scaled.val / (4 * (count - 1))) (.overflow "imbalance fee rate")
  return ⟨numerator⟩

/-- The written form of a rate. -/
def text (rate : FeeRate) : String := s!"{rate.numerator}/{denominator}"

end FeeRate

end StablePool
