import Mathlib.Tactic.Linarith
import Mathlib.Tactic.Ring

/-!
# Rounded steps towards the invariant

The invariant `d` of `n` balances with the sum term `sum` solves
`slope * d * k + d ^ (n + 1) = sum * k`, where `k` is `n ^ n` times the product of the balances. A
pass knows the product term `d ^ (n + 1) / k` only up to rounding, as some `p` that is not larger.

As long as `slope * d ≤ sum`, a smaller `p` gives a larger step. The step with the exact product
term is a tangent step on a convex function, so that no step ends a whole unit below the solution;
and each step keeps the bound. These are facts about natural numbers.
-/

namespace StablePool.Curve

/-- `z` is the rounded step from `d` with the product term `p`, whose divisor is positive. -/
structure IsInvariantStep (n slope sum p d z : ℕ) : Prop where
  divisor_pos : 0 < slope * d + (n + 1) * p
  eq_div : z = (sum + n * p) * d / (slope * d + (n + 1) * p)

/-- A power lies above each of its tangents. -/
theorem tangent_le_pow (n d q : ℕ) : (n + 1) * d ^ n * q ≤ q ^ (n + 1) + n * d ^ (n + 1) := by
  induction n with
  | zero => simp
  | succ n ih =>
    zify at ih ⊢
    have hscaled := mul_le_mul_of_nonneg_right ih (Int.natCast_nonneg q)
    have hsquare : (0 : ℤ) ≤ (n + 1) * d ^ n * (q - d) ^ 2 := by positivity
    have hexpand : ((n : ℤ) + 1) * d ^ n * (q - d) ^ 2 =
        (n + 1) * d ^ n * q * q - 2 * ((n + 1) * d ^ (n + 1) * q) + (n + 1) * d ^ (n + 2) := by
      ring
    calc ((n : ℤ) + 1 + 1) * d ^ (n + 1) * q
        ≤ (n + 1 + 1) * d ^ (n + 1) * q + ((q ^ (n + 1) + n * d ^ (n + 1)) * q -
            (n + 1) * d ^ n * q * q) + (n + 1) * d ^ n * (q - d) ^ 2 := by linarith
      _ = q ^ (n + 1 + 1) + (n + 1) * d ^ (n + 1 + 1) := by rw [hexpand]; ring

variable {n slope sum p d z k : ℕ}

/-- The quotient of a step, rounded down, does not exceed the exact one. -/
theorem IsInvariantStep.mul_le (h : IsInvariantStep n slope sum p d z) :
    z * (slope * d + (n + 1) * p) ≤ (sum + n * p) * d :=
  h.eq_div ▸ Nat.div_mul_le_self _ _

/-- A step keeps the bound that the linear part alone gives. -/
theorem IsInvariantStep.slope_mul_le (h : IsInvariantStep n slope sum p d z)
    (hbound : slope * d ≤ sum) : slope * z ≤ sum := by
  have hproduct : slope * d * (n * p) ≤ sum * ((n + 1) * p) := by
    apply Nat.mul_le_mul hbound
    exact Nat.mul_le_mul_right p (Nat.le_succ n)
  apply Nat.le_of_mul_le_mul_right _ h.divisor_pos
  calc slope * z * (slope * d + (n + 1) * p)
      = slope * (z * (slope * d + (n + 1) * p)) := by ring
    _ ≤ slope * ((sum + n * p) * d) := Nat.mul_le_mul_left slope h.mul_le
    _ = sum * (slope * d) + slope * d * (n * p) := by ring
    _ ≤ sum * (slope * d) + sum * ((n + 1) * p) := Nat.add_le_add_left hproduct _
    _ = sum * (slope * d + (n + 1) * p) := by ring

/-- The quotient of a step, rounded up, exceeds the exact one. -/
theorem IsInvariantStep.lt_succ_mul (h : IsInvariantStep n slope sum p d z) :
    (sum + n * p) * d < (z + 1) * (slope * d + (n + 1) * p) := by
  rw [h.eq_div, Nat.mul_comm (_ + 1)]
  exact Nat.lt_mul_div_succ _ h.divisor_pos

/-- A step falls by less than one part in `n + 1`. -/
theorem IsInvariantStep.mul_le_succ_mul (h : IsInvariantStep n slope sum p d z)
    (hbound : slope * d ≤ sum) : n * d ≤ (n + 1) * (z + 1) := by
  have hlinear : n * (slope * d) ≤ (n + 1) * sum := Nat.mul_le_mul (Nat.le_succ n) hbound
  apply Nat.le_of_mul_le_mul_right _ h.divisor_pos
  calc n * d * (slope * d + (n + 1) * p)
      = (n * (slope * d) + (n + 1) * (n * p)) * d := by ring
    _ ≤ ((n + 1) * sum + (n + 1) * (n * p)) * d :=
        Nat.mul_le_mul_right d (Nat.add_le_add_right hlinear _)
    _ = (n + 1) * ((sum + n * p) * d) := by ring
    _ ≤ (n + 1) * ((z + 1) * (slope * d + (n + 1) * p)) :=
        Nat.mul_le_mul_left _ h.lt_succ_mul.le
    _ = (n + 1) * (z + 1) * (slope * d + (n + 1) * p) := by ring

/-- A step that starts at zero has no positive divisor, unless the product term is too large. -/
theorem IsInvariantStep.start_pos (h : IsInvariantStep n slope sum p d z) (hk : 0 < k)
    (hp : p * k ≤ d ^ (n + 1)) : 0 < d := by
  by_contra hzero
  obtain rfl : d = 0 := by omega
  have hpk : p * k = 0 := by simpa using hp
  have hp0 : p = 0 := by
    rcases Nat.mul_eq_zero.1 hpk with hp0 | hk0
    · exact hp0
    · omega
  have := h.divisor_pos
  simp [hp0] at this

/-- A step never ends a whole unit below the solution: rounding the product term down can only
raise the step, and the exact step is a tangent step. -/
theorem IsInvariantStep.lt_at_succ (h : IsInvariantStep n slope sum p d z) (hk : 0 < k)
    (hp : p * k ≤ d ^ (n + 1)) (hbound : slope * d ≤ sum) :
    sum * k < slope * (z + 1) * k + (z + 1) ^ (n + 1) := by
  have hd := h.start_pos hk hp
  obtain ⟨lost, hlost⟩ := Nat.exists_eq_add_of_le hp
  have hstep := Nat.mul_lt_mul_of_pos_right h.lt_succ_mul hk
  -- What rounding takes from the product term weighs more in the divisor than in the dividend.
  have hraise : lost * (n * d) ≤ lost * ((n + 1) * (z + 1)) :=
    Nat.mul_le_mul_left lost (h.mul_le_succ_mul hbound)
  have hexact : (sum * k + n * d ^ (n + 1)) * d <
      (slope * (z + 1) * k + (n + 1) * d ^ n * (z + 1)) * d := by
    calc (sum * k + n * d ^ (n + 1)) * d
        = (sum + n * p) * d * k + lost * (n * d) := by rw [hlost]; ring
      _ < (z + 1) * (slope * d + (n + 1) * p) * k + lost * ((n + 1) * (z + 1)) := by omega
      _ = slope * (z + 1) * k * d + (n + 1) * (z + 1) * (p * k + lost) := by ring
      _ = (slope * (z + 1) * k + (n + 1) * d ^ n * (z + 1)) * d := by rw [← hlost]; ring
  have htangent := tangent_le_pow n d (z + 1)
  have hquotient := Nat.lt_of_mul_lt_mul_right hexact
  omega

/-- Only a number above zero lies less than a unit below the solution, if the sum term exceeds the
slope. -/
theorem pos_of_lt_at_succ (hk : 0 < k) (hsum : slope < sum)
    (h : sum * k < slope * (z + 1) * k + (z + 1) ^ (n + 1)) : 0 < z := by
  by_contra hzero
  obtain rfl : z = 0 := by omega
  have hmul : (slope + 1) * k ≤ sum * k := Nat.mul_le_mul_right k hsum
  rw [Nat.succ_mul] at hmul
  simp only [Nat.zero_add, Nat.mul_one, one_pow] at h
  omega

end StablePool.Curve
