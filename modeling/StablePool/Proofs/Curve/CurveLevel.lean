import StablePool.Proofs.Curve.InvariantBounds
import StablePool.Proofs.Curve.RootBracket

/-!
# From the quadratic of a balance to the level of the curve

With every balance but one held fixed, the equation of the invariant is the quadratic of the free
balance, multiplied by that balance and by what the others contribute. The coefficients of the
quadratic are rounded down. The share in the linear term can only raise the root for it; the constant
term lowers it, and a balance beyond the root can then lie below the curve by what the constant term
lost, and by what the balance is short of the root.

The levels are compared without their denominator, as natural numbers.
-/

namespace StablePool.Curve

/-- The level of the curve at the invariant `d`, times the product `k` of the balances and of
`n ^ n`: the linear part and the power of `d`. -/
def curveAt (n slope k d : ℕ) : ℕ := slope * d * k + d ^ (n + 1)

/-- What the constant term of a free balance loses to rounding, at the same scale. -/
def constantLoss (fixed : List Amount) (count d ann : ℕ) : ℕ :=
  d ^ (count + 1) -
    ann * constantTerm fixed count d ann * (count ^ count * (fixed.map Word.val).prod)

section

variable {n slope k d e : ℕ}

/-- A smaller invariant has a lower level. -/
theorem curveAt_mono (h : d ≤ e) : curveAt n slope k d ≤ curveAt n slope k e :=
  Nat.add_le_add (Nat.mul_le_mul_right k (Nat.mul_le_mul_left slope h)) (Nat.pow_le_pow_left h _)

/-- An invariant whose level lies below that of the successor of another does not exceed the
other. -/
theorem le_of_curveAt_lt_succ (h : curveAt n slope k d < curveAt n slope k (e + 1)) : d ≤ e := by
  by_contra hlt
  exact absurd (curveAt_mono (Nat.lt_of_not_le hlt)) (Nat.not_le.2 h)

end

/-- A balance that brackets the root misses it by less than the rise of the quadratic over the next
unit. -/
theorem BracketsRoot.lt_add_rise {b c d y : ℕ} (h : BracketsRoot b c d y) :
    d * y + c < y ^ 2 + b * y + (2 * y + 1 + b - d) := by
  have hsucc : d * y + c + d < y ^ 2 + b * y + (2 * y + 1 + b) := by
    calc d * y + c + d = d * (y + 1) + c := by ring
      _ < (y + 1) ^ 2 + b * (y + 1) := h.lt_succ
      _ = y ^ 2 + b * y + (2 * y + 1 + b) := by ring
  omega

/-- The constant term never exceeds what it stands for. -/
theorem mul_constantTerm_mul_le {fixed : List Amount} {count d ann : ℕ}
    (hcount : fixed.length + 1 = count) :
    ann * constantTerm fixed count d ann * (count ^ count * (fixed.map Word.val).prod) ≤
      d ^ (count + 1) := by
  have hdiv : constantTerm fixed count d ann * (count * ann) ≤ foldedProduct fixed count d * d :=
    Nat.div_mul_le_self _ _
  have hfold := foldedProduct_mul_prod_le fixed count d
  have hpow : count ^ count = count ^ fixed.length * count := by
    rw [← pow_succ, hcount]
  calc ann * constantTerm fixed count d ann * (count ^ count * (fixed.map Word.val).prod)
      = constantTerm fixed count d ann * (count * ann) *
          (count ^ fixed.length * (fixed.map Word.val).prod) := by rw [hpow]; ring
    _ ≤ foldedProduct fixed count d * d * (count ^ fixed.length * (fixed.map Word.val).prod) :=
        Nat.mul_le_mul_right _ hdiv
    _ = foldedProduct fixed count d * (count ^ fixed.length * (fixed.map Word.val).prod) * d := by
        ring
    _ ≤ d ^ (fixed.length + 1) * d := Nat.mul_le_mul_right d hfold
    _ = d ^ (count + 1) := by rw [hcount, pow_succ]

/-- The quadratic of a balance with its share of the invariant multiplied out: rounding the share
down does no harm. -/
theorem slope_mul_lt_of_quadratic {ann d c y sum short : ℕ} (hann : 0 < ann)
    (h : d * y + c < y ^ 2 + (sum + d / ann) * y + short) :
    (ann - 1) * d * y + ann * c < ann * (y + sum) * y + ann * short := by
  obtain ⟨slope, rfl⟩ := Nat.exists_eq_add_of_le' hann
  have hshare : (slope + 1) * (d / (slope + 1)) ≤ d := Nat.mul_div_le d (slope + 1)
  have hmul := Nat.mul_lt_mul_of_pos_left h hann
  rw [Nat.add_sub_cancel]
  apply Nat.lt_of_add_lt_add_right (n := d * y)
  calc slope * d * y + (slope + 1) * c + d * y = (slope + 1) * (d * y + c) := by ring
    _ < (slope + 1) * (y ^ 2 + (sum + d / (slope + 1)) * y + short) := hmul
    _ = (slope + 1) * (y + sum) * y + (slope + 1) * short +
          (slope + 1) * (d / (slope + 1)) * y := by ring
    _ ≤ (slope + 1) * (y + sum) * y + (slope + 1) * short + d * y :=
        Nat.add_le_add_left (Nat.mul_le_mul_right y hshare) _

/-- If a balance is short of its root at the invariant `d` by no more than `short`, and the balances
lie below the curve of `e + 1`, then the level of `d` exceeds that of `e + 1` by less than the loss
of the constant term and what `short` weighs. -/
theorem curveAt_lt_of_quadratic {fixed : List Amount} {count d e y short ann : ℕ}
    (hcount : fixed.length + 1 = count) (hfixed : ∀ x ∈ fixed, 0 < x.val) (hann : 0 < ann)
    (hshort : d * y + constantTerm fixed count d ann <
      y ^ 2 + linearTerm fixed d ann * y + short)
    (hbelow : ann * (y + (fixed.map Word.val).sum) *
        (count ^ count * (y * (fixed.map Word.val).prod)) <
      curveAt count (ann - 1) (count ^ count * (y * (fixed.map Word.val).prod)) (e + 1)) :
    curveAt count (ann - 1) (count ^ count * (y * (fixed.map Word.val).prod)) d <
      curveAt count (ann - 1) (count ^ count * (y * (fixed.map Word.val).prod)) (e + 1) +
        constantLoss fixed count d ann +
        ann * short * (count ^ count * (fixed.map Word.val).prod) := by
  have hk : 0 < count ^ count * (fixed.map Word.val).prod :=
    Nat.mul_pos (Nat.pow_pos (by omega)) (prod_pos_of_forall_pos hfixed)
  have hquadratic := Nat.mul_lt_mul_of_pos_right (slope_mul_lt_of_quadratic hann hshort) hk
  have hexact : ann * constantTerm fixed count d ann *
      (count ^ count * (fixed.map Word.val).prod) + constantLoss fixed count d ann =
        d ^ (count + 1) := Nat.add_sub_cancel' (mul_constantTerm_mul_le hcount)
  have hleft : curveAt count (ann - 1) (count ^ count * (y * (fixed.map Word.val).prod)) d =
      ((ann - 1) * d * y + ann * constantTerm fixed count d ann) *
        (count ^ count * (fixed.map Word.val).prod) + constantLoss fixed count d ann := by
    rw [curveAt, ← hexact]
    ring
  have hright : (ann * (y + (fixed.map Word.val).sum) * y + ann * short) *
      (count ^ count * (fixed.map Word.val).prod) =
        ann * (y + (fixed.map Word.val).sum) *
            (count ^ count * (y * (fixed.map Word.val).prod)) +
          ann * short * (count ^ count * (fixed.map Word.val).prod) := by
    ring
  rw [hright] at hquadratic
  omega

/-- One balance and the others add up to all of them. -/
theorem add_sum_eraseIdx {xp : List Amount} {j : ℕ} {y : Amount} (hy : xp[j]? = some y) :
    y.val + ((xp.eraseIdx j).map Word.val).sum = (xp.map Word.val).sum := by
  obtain ⟨hj, rfl⟩ := List.getElem?_eq_some_iff.1 hy
  have hsum := List.CommMonoid.add_sum_eraseIdx (l := xp.map Word.val) (i := j) (by simpa using hj)
  rwa [List.getElem_map, List.eraseIdx_map] at hsum

/-- One balance times the others is the product of all of them. -/
theorem mul_prod_eraseIdx {xp : List Amount} {j : ℕ} {y : Amount} (hy : xp[j]? = some y) :
    y.val * ((xp.eraseIdx j).map Word.val).prod = (xp.map Word.val).prod := by
  obtain ⟨hj, rfl⟩ := List.getElem?_eq_some_iff.1 hy
  have hprod := List.CommMonoid.mul_prod_eraseIdx (l := xp.map Word.val) (i := j) (by simpa using hj)
  rwa [List.getElem_map, List.eraseIdx_map] at hprod

/-- Positive balances, one of which is short of its root at the invariant `d` by no more than
`short`: the level of `d` exceeds that of the successor of their own invariant by less than the loss
of the constant term and what `short` weighs. -/
theorem curveAt_lt_of_invariant {xp : List Amount} {a : Amplification} {bound n j d short : ℕ}
    {y e : Amount} (hlength : xp.length = n) (hpos : ∀ x ∈ xp, 0 < x.val) (hy : xp[j]? = some y)
    (he : (invariant xp a bound).result = .ok e)
    (hshort : d * y.val + constantTerm (xp.eraseIdx j) n d (n * a.coefficient.val) <
      y.val ^ 2 + linearTerm (xp.eraseIdx j) d (n * a.coefficient.val) * y.val + short) :
    curveAt n (n * a.coefficient.val - 1) (n ^ n * (xp.map Word.val).prod) d <
      curveAt n (n * a.coefficient.val - 1) (n ^ n * (xp.map Word.val).prod) (e.val + 1) +
        constantLoss (xp.eraseIdx j) n d (n * a.coefficient.val) +
        n * a.coefficient.val * short * (n ^ n * ((xp.eraseIdx j).map Word.val).prod) := by
  subst hlength
  obtain ⟨hj, -⟩ := List.getElem?_eq_some_iff.1 hy
  have hcount : (xp.eraseIdx j).length + 1 = xp.length := by
    rw [List.length_eraseIdx_of_lt hj]
    omega
  have hfixed : ∀ x ∈ xp.eraseIdx j, 0 < x.val := fun x hx => hpos x (List.mem_of_mem_eraseIdx hx)
  have hann : 0 < xp.length * a.coefficient.val := Nat.mul_pos (by omega) a.coefficient_pos
  have hbelow := (lt_at_succ_of_invariant_eq_ok hpos he).1
  rw [← add_sum_eraseIdx hy, ← mul_prod_eraseIdx hy] at hbelow
  rw [← mul_prod_eraseIdx hy]
  exact curveAt_lt_of_quadratic hcount hfixed hann hshort hbelow

end StablePool.Curve
