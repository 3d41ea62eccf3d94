import StablePool.Word

/-!
# Amplification

The amplification says how flat the curve is around equal balances. It is stored as it enters the
solvers, that is `A * n ^ (n - 1)` for a curve of `n` assets with the coefficient `A`, and is never
zero.
-/

namespace StablePool

attribute [local instance (high)] instPowNat instNatPowNat

/-- A positive coefficient, already scaled for the number of assets. -/
@[ext] structure Amplification where
  coefficient : Amount
  coefficient_pos : 0 < coefficient.val
deriving DecidableEq

namespace Amplification

/-- An amplification from its scaled coefficient. -/
def ofScaled (coefficient : Amount) : Checked Amplification :=
  if h : 0 < coefficient.val then .ok ⟨coefficient, h⟩
  else .error (.invalidConfiguration "amplification must be greater than zero")

/-- A coefficient is taken as it is. -/
theorem ofScaled_eq_ok_iff {coefficient : Amount} {a : Amplification} :
    ofScaled coefficient = .ok a ↔ a.coefficient = coefficient := by
  unfold ofScaled
  split
  · simp only [Except.ok.injEq, Amplification.ext_iff]
    exact eq_comm
  · next h =>
    simp only [reduceCtorEq, false_iff]
    rintro rfl
    exact h a.coefficient_pos

/-- Only zero is refused. -/
theorem ofScaled_eq_error_iff {coefficient : Amount} {cause : Error} :
    ofScaled coefficient = .error cause ↔ coefficient.val = 0 ∧
      .invalidConfiguration "amplification must be greater than zero" = cause := by
  unfold ofScaled
  split
  · next h => simp [Nat.ne_of_gt h]
  · next h => simp [Nat.eq_zero_of_not_pos h]

/-- The amplification of a curve of `count` assets with the plain coefficient `actual`. -/
def ofActual (actual : Amount) (count : Nat) : Checked Amplification := do
  ensure (2 ≤ count) (.invalidConfiguration "a pool needs at least two assets")
  ensure (count - 1 < 2 ^ (32 : Nat)) (.overflow "amplification exponent")
  let factor ← Word.power count (count - 1) "n^(n-1)"
  let coefficient ← actual.mul factor "A * n^(n-1)"
  ofScaled coefficient

/-- The coefficient times the number of assets, the form that every solver uses. -/
def ann (a : Amplification) (count : Nat) : Checked Amount :=
  a.coefficient.times count "A * n"

/-- The product is exact if it fits an amount. -/
theorem ann_eq_ok_iff {a : Amplification} {count : Nat} {c : Amount} :
    a.ann count = .ok c ↔ c.val = count * a.coefficient.val := Word.times_eq_ok_iff

/-- The product is refused exactly if it does not fit an amount. -/
theorem ann_eq_error_iff {a : Amplification} {count : Nat} {cause : Error} :
    a.ann count = .error cause ↔
      2 ^ (128 : Nat) ≤ count * a.coefficient.val ∧ .overflow "A * n" = cause := Word.times_eq_error_iff

/-- The written form of an amplification. -/
def text (a : Amplification) : String := s!"A={a.coefficient}"

end Amplification

end StablePool
