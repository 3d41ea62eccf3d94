import Mathlib.Data.Nat.Find
import Mathlib.Tactic.Linarith
import Mathlib.Tactic.Ring

/-!
# Rounded tangent steps on the quadratic of a free balance

The free balance is the non-negative root of `y ^ 2 + b * y = d * y + c`. A pass replaces `y` by
`(y ^ 2 + c) / (2 * y + b - d)`, rounded down, which is where the tangent at `y` meets zero. No step
ends a whole unit below the root, whatever the sign of `b - d`, and a step from above the root at
least halves the distance to the last natural number that is not beyond it.

These are facts about natural numbers. That the solvers form exactly these numbers, and that none
of them is cut off by a word, is a separate matter.
-/

namespace StablePool.Curve

/-- `y` exceeds the non-negative root of `y ^ 2 + b * y = d * y + c`. -/
def BeyondRoot (b c d y : ℕ) : Prop := d * y + c < y ^ 2 + b * y

instance (b c d y : ℕ) : Decidable (BeyondRoot b c d y) :=
  inferInstanceAs (Decidable (d * y + c < y ^ 2 + b * y))

/-- `s` is the last natural number that is not beyond the root. -/
structure IsRootFloor (b c d s : ℕ) : Prop where
  not_beyond : ¬ BeyondRoot b c d s
  beyond_succ : BeyondRoot b c d (s + 1)

/-- `z` is the rounded tangent step from `y`, whose divisor is positive. -/
structure IsTangentStep (b c d y z : ℕ) : Prop where
  divisor_pos : d < 2 * y + b
  eq_div : z = (y ^ 2 + c) / (2 * y + b - d)

variable {b c d s y z : ℕ}

/-- Whatever exceeds a number beyond the root is beyond it too. -/
theorem BeyondRoot.mono {t u : ℕ} (h : BeyondRoot b c d t) (hle : t ≤ u) : BeyondRoot b c d u := by
  unfold BeyondRoot at h ⊢
  obtain ⟨k, rfl⟩ := Nat.exists_eq_add_of_le hle
  have hslope : d < t + b := by
    by_contra hd
    have := Nat.mul_le_mul_right t (Nat.le_of_not_lt hd)
    nlinarith
  have hgrowth : k * d ≤ k * (t + b) := Nat.mul_le_mul_left k hslope.le
  nlinarith [Nat.zero_le (k * t), Nat.zero_le (k * k)]

/-- A number that with the linear term makes up `d` and `q` more is beyond the root exactly if its
product with `q` exceeds the constant term. -/
theorem beyondRoot_iff_lt_mul {q : ℕ} (h : b + y = d + q) : BeyondRoot b c d y ↔ c < y * q := by
  have hparts : y ^ 2 + b * y = d * y + y * q := by
    calc y ^ 2 + b * y = y * (b + y) := by ring
      _ = d * y + y * q := by rw [h]; ring
  rw [BeyondRoot, hparts]
  exact Nat.add_lt_add_iff_left

/-- The quadratic outgrows its right side, so that the numbers up to the root have a last one. -/
theorem exists_isRootFloor (b c d : ℕ) : ∃ s, IsRootFloor b c d s := by
  classical
  have hexists : ∃ s, BeyondRoot b c d (s + 1) := by
    refine ⟨d + c, ?_⟩
    unfold BeyondRoot
    nlinarith [Nat.zero_le (b * (d + c + 1)), Nat.zero_le (d * c)]
  refine ⟨Nat.find hexists, ?_, Nat.find_spec hexists⟩
  cases hfind : Nat.find hexists with
  | zero => simp [BeyondRoot]
  | succ s => exact Nat.find_min hexists (by omega)

/-- The divisor of a step is an exact difference. -/
theorem IsTangentStep.cast_divisor (h : IsTangentStep b c d y z) :
    ((2 * y + b - d : ℕ) : ℤ) = 2 * y + b - d := by
  have hpos := h.divisor_pos
  omega

/-- The divisor of a step is positive as an integer. -/
theorem IsTangentStep.zero_lt_divisor (h : IsTangentStep b c d y z) :
    (0 : ℤ) < 2 * y + b - d := by
  have hpos := h.divisor_pos
  omega

/-- Rounding down leaves a multiple of the divisor below the dividend. -/
theorem IsTangentStep.mul_le (h : IsTangentStep b c d y z) :
    (z : ℤ) * (2 * y + b - d) ≤ y ^ 2 + c := by
  have hdiv : z * (2 * y + b - d) ≤ y ^ 2 + c := h.eq_div ▸ Nat.div_mul_le_self _ _
  rw [← h.cast_divisor]
  exact_mod_cast hdiv

/-- The next multiple of the divisor exceeds the dividend. -/
theorem IsTangentStep.lt_succ_mul (h : IsTangentStep b c d y z) :
    (y : ℤ) ^ 2 + c < (z + 1) * (2 * y + b - d) := by
  have hdiv : y ^ 2 + c < (z + 1) * (2 * y + b - d) := by
    rw [h.eq_div, Nat.mul_comm]
    exact Nat.lt_mul_div_succ _ (Nat.sub_pos_of_lt h.divisor_pos)
  rw [← h.cast_divisor]
  exact_mod_cast hdiv

/-- A number is beyond the root exactly if the quadratic is positive there. -/
theorem beyondRoot_iff_pos : BeyondRoot b c d y ↔ (0 : ℤ) < y ^ 2 + b * y - d * y - c := by
  unfold BeyondRoot
  zify
  constructor <;> intro h <;> linarith

/-- A step never ends a whole unit below the root: the quadratic lies above each of its tangents. -/
theorem IsTangentStep.beyond_succ (h : IsTangentStep b c d y z) : BeyondRoot b c d (z + 1) := by
  have hstep := h.lt_succ_mul
  have hsquare := sq_nonneg ((z : ℤ) + 1 - y)
  rw [beyondRoot_iff_pos]
  push_cast
  linarith [hstep, hsquare]

/-- A step stays at or above the last number up to the root. -/
theorem IsRootFloor.le_step (hs : IsRootFloor b c d s) (h : IsTangentStep b c d y z) : s ≤ z := by
  by_contra hlt
  exact hs.not_beyond (h.beyond_succ.mono (by omega))

/-- Above the last number up to the root the quadratic is positive. -/
theorem IsRootFloor.zero_lt_at_succ (hs : IsRootFloor b c d s) :
    (0 : ℤ) < (s + 1) ^ 2 + b * (s + 1) - d * (s + 1) - c := by
  exact_mod_cast beyondRoot_iff_pos.1 hs.beyond_succ

/-- A step from above the root at least halves the distance to the last number up to it. -/
theorem IsRootFloor.two_mul_step_le (hs : IsRootFloor b c d s) (h : IsTangentStep b c d y z)
    (hlt : s < y) : 2 * z ≤ y + s := by
  by_contra hfar
  have hstep := h.mul_le
  have hdivisor := h.zero_lt_divisor
  have hroot := hs.zero_lt_at_succ
  -- The root lies below `s + 1`, and with it `d - b`, the sum of the two roots.
  have hslope : (0 : ℤ) < s + 1 + b - d := by
    by_contra hneg
    nlinarith
  have hz : (y : ℤ) + s + 1 ≤ 2 * z := by omega
  have hdouble : ((y : ℤ) + s + 1) * (2 * y + b - d) ≤ 2 * (y ^ 2 + c) := by
    calc ((y : ℤ) + s + 1) * (2 * y + b - d) ≤ 2 * z * (2 * y + b - d) :=
          mul_le_mul_of_nonneg_right hz hdivisor.le
      _ = 2 * (z * (2 * y + b - d)) := by ring
      _ ≤ 2 * (y ^ 2 + c) := by linarith
  have hgap : (0 : ℤ) ≤ (2 * (s + 1) + b - d) * (y - (s + 1)) := by
    apply mul_nonneg
    · linarith
    · omega
  nlinarith

/-- A step from the last number up to the root moves by at most one. -/
theorem IsRootFloor.step_le_succ (hs : IsRootFloor b c d s) (h : IsTangentStep b c d s z) :
    z ≤ s + 1 := by
  by_contra hfar
  have hstep := h.mul_le
  have hdivisor := h.zero_lt_divisor
  have hroot := hs.zero_lt_at_succ
  have hz : (s : ℤ) + 2 ≤ z := by omega
  have hmul := mul_le_mul_of_nonneg_right hz hdivisor.le
  nlinarith

/-- Where a step moves by at most one, it does not end more than a unit beyond the root. -/
theorem IsTangentStep.not_beyond_pred (h : IsTangentStep b c d y z) (hup : z ≤ y + 1)
    (hdown : y ≤ z + 1) : ¬ BeyondRoot b c d (z - 1) := by
  have hstep := h.mul_le
  have hdivisor := h.zero_lt_divisor
  rcases Nat.eq_zero_or_pos (z - 1) with hzero | hpos
  · simp [hzero, BeyondRoot]
  · rw [beyondRoot_iff_pos, not_lt]
    have hz : ((z - 1 : ℕ) : ℤ) = z - 1 := by omega
    rw [hz]
    obtain rfl | rfl | rfl : z = y + 1 ∨ z = y ∨ y = z + 1 := by omega
    · push_cast at hstep ⊢
      nlinarith
    · nlinarith
    · -- A step down by one unit ends up to `d - b`, or its divisor is large.
      push_cast at hstep hdivisor
      rcases le_or_gt ((z : ℤ) - 1) (d - b) with hnear | hfar
      · have hz : (0 : ℤ) ≤ z - 1 := by omega
        nlinarith [mul_nonneg hz (sub_nonneg.2 hnear), Int.natCast_nonneg c]
      · have hlarge : (4 : ℤ) ≤ 2 * (z + 1) + b - d := by omega
        nlinarith

end StablePool.Curve
