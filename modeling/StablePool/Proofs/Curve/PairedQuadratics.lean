import StablePool.Proofs.Curve.CurveLevel

/-!
# The quadratics of two balances

Beside the same other balances, each of two balances has a quadratic in which the other one is held
fixed. Multiplied by the balance they hold fixed, both are the equation of the curve, up to the
rounding of their constant terms. A pair of balances that satisfies the one therefore nearly satisfies
the other: what it can miss is what the constant terms lose, and what is taken off the first balance
after it was solved for.
-/

namespace StablePool.Curve

/-- A number that is beyond the root is no smaller than one that brackets it. -/
theorem BracketsRoot.le_of_beyondRoot {b c d y t : ℕ} (h : BracketsRoot b c d y)
    (ht : BeyondRoot b c d t) : y ≤ t := by
  by_contra hlt
  have hpred : ¬ BeyondRoot b c d (y - 1) := Nat.not_lt.2 (h.pred_le (by omega))
  exact hpred (ht.mono (by omega))

/-- A number that is not beyond the root is no larger than one that brackets it. -/
theorem BracketsRoot.le_of_not_beyondRoot {b c d y t : ℕ} (h : BracketsRoot b c d y)
    (ht : ¬ BeyondRoot b c d t) : t ≤ y := by
  by_contra hlt
  exact ht (BeyondRoot.mono h.lt_succ (by omega))

/-- The sum of the balances but one, once another is replaced. -/
theorem sum_eraseIdx_set {xp : List Amount} {i j : ℕ} {x₀ y₀ : Amount} (hne : i ≠ j)
    (hx : xp[i]? = some x₀) (hy : xp[j]? = some y₀) (x : Amount) :
    (((xp.set i x).eraseIdx j).map Word.val).sum + x₀.val + y₀.val =
      (xp.map Word.val).sum + x.val := by
  obtain ⟨hi, -⟩ := List.getElem?_eq_some_iff.1 hx
  have htarget : (xp.set i x)[j]? = some y₀ := by rw [List.getElem?_set_ne hne, hy]
  have hsource : (xp.set i x)[i]? = some x := List.getElem?_set_self hi
  have hset := add_sum_eraseIdx htarget
  have hreplaced := add_sum_eraseIdx hsource
  have hkept := add_sum_eraseIdx hx
  rw [List.eraseIdx_set_eq] at hreplaced
  omega

/-- The linear terms of two balances differ as the balances do. -/
theorem linearTerm_add {xp : List Amount} {i j : ℕ} {x₀ y₀ : Amount} (hne : i ≠ j)
    (hx : xp[i]? = some x₀) (hy : xp[j]? = some y₀) (x y : Amount) (d ann : ℕ) :
    linearTerm ((xp.set i x).eraseIdx j) d ann + y.val =
      linearTerm ((xp.set j y).eraseIdx i) d ann + x.val := by
  have hforward := sum_eraseIdx_set hne hx hy x
  have hbackward := sum_eraseIdx_set hne.symm hy hx y
  unfold linearTerm
  omega

section

variable {b₁ c₁ b₂ c₂ d t x y : ℕ}

/-- What the level of `y` can miss beside `x`, if `t` is beyond the root beside `y`: what the
quadratic falls from `t` to `x`, and what its constant term stands for less. -/
def missingLevel (b₁ c₁ c₂ d t x y : ℕ) : ℕ :=
  y * ((t - x) * (2 * t + b₁ - d)) + (x * c₂ - y * c₁)

/-- The quadratic falls by no more than its slope at the higher end. -/
theorem BeyondRoot.lt_add_fall (h : BeyondRoot b₁ c₁ d t) (hle : x ≤ t) :
    d * x + c₁ < x ^ 2 + b₁ * x + (t - x) * (2 * t + b₁ - d) := by
  obtain ⟨k, rfl⟩ := Nat.exists_eq_add_of_le hle
  rw [Nat.add_sub_cancel_left]
  have hslope : 2 * (x + k) + b₁ ≤ (2 * (x + k) + b₁ - d) + d := le_tsub_add
  have hfall : k * (2 * (x + k) + b₁) ≤ k * (2 * (x + k) + b₁ - d) + k * d := by
    rw [← Nat.mul_add]
    exact Nat.mul_le_mul_left k hslope
  unfold BeyondRoot at h
  nlinarith [Nat.zero_le (k * k)]

/-- If `t` is beyond the root beside `y`, then `y` beside `x` misses its own root by less than the
missing level. -/
theorem BeyondRoot.lt_add_missingLevel (h : BeyondRoot b₁ c₁ d t) (hle : x ≤ t) (hy : 0 < y)
    (hlinear : b₂ + y = b₁ + x) :
    x * (d * y + c₂) < x * (y ^ 2 + b₂ * y) + missingLevel b₁ c₁ c₂ d t x y := by
  have hfall := Nat.mul_lt_mul_of_pos_left (h.lt_add_fall hle) hy
  have hconstant : x * c₂ ≤ y * c₁ + (x * c₂ - y * c₁) := by omega
  have hlevel : x * (y ^ 2 + b₂ * y) = y * (x ^ 2 + b₁ * x) := by
    calc x * (y ^ 2 + b₂ * y) = x * y * (b₂ + y) := by ring
      _ = x * y * (b₁ + x) := by rw [hlinear]
      _ = y * (x ^ 2 + b₁ * x) := by ring
  unfold missingLevel
  rw [hlevel]
  nlinarith

/-- A level that is missing is made up for by so many units over which the quadratic rises as much. -/
theorem beyondRoot_add_of_missing {b c k short : ℕ}
    (h : x * (d * y + c) < x * (y ^ 2 + b * y) + short)
    (hrise : short ≤ x * (k * (2 * y + k + b - d))) : BeyondRoot b c d (y + k) := by
  have hsum : x * (d * y + c) < x * (y ^ 2 + b * y + k * (2 * y + k + b - d)) := by
    rw [Nat.mul_add x (y ^ 2 + b * y)]
    omega
  have hlevel := Nat.lt_of_mul_lt_mul_left hsum
  rcases Nat.le_total d (2 * y + k + b) with hslope | hflat
  · have hexact : k * (2 * y + k + b - d) + k * d = k * (2 * y + k + b) := by
      rw [← Nat.mul_add, Nat.sub_add_cancel hslope]
    unfold BeyondRoot
    nlinarith
  · rw [Nat.sub_eq_zero_of_le hflat, Nat.mul_zero, Nat.add_zero] at hlevel
    exact BeyondRoot.mono hlevel (Nat.le_add_right y k)

end

end StablePool.Curve
