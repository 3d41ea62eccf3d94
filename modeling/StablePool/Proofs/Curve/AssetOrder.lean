import Mathlib.Algebra.Group.Nat.Defs
import StablePool.Proofs.Curve.InvariantAnswers

/-!
# The invariant of balances in another order

The product term is rounded down after each balance, so that another order of the same balances gives
another product term and can give another invariant. A solve ends with a step of at most one unit, and the
level of the curve at its result, the power of it taken a unit lower, exceeds that of the balances by no
more than what the product term lost. The level of a unit above the result in any other order is beyond
that of the balances. Between the two results lies therefore no more than what one order loses, measured
by the linear part of the curve, and a unit.

The loss can outweigh the linear part, if a small balance comes last and the amplification is low: the
invariants of one set of balances can be more than a unit apart.
-/

namespace StablePool.Curve

section

variable {n slope sum p u w k lost : ℕ}

/-- A power whose base falls by two falls by at least its derivative, if the base is large enough for the
exponent. -/
theorem pow_add_derivative_le (h : 2 * n ≤ w + 2) :
    w ^ (n + 1) + (n + 1) * (w + 2) ^ n ≤ (w + 2) ^ (n + 1) := by
  induction n with
  | zero => simp
  | succ n ih =>
    have hscaled := Nat.mul_le_mul_left w (ih (by omega))
    have hlinear : n * (w + 2) ≤ w * (n + 1) := by linarith
    have hgain := Nat.mul_le_mul_right ((w + 2) ^ n) hlinear
    calc w ^ (n + 1 + 1) + (n + 1 + 1) * (w + 2) ^ (n + 1)
        = w * w ^ (n + 1) + n * (w + 2) * (w + 2) ^ n + 2 * (w + 2) ^ (n + 1) := by ring
      _ ≤ w * (w ^ (n + 1) + (n + 1) * (w + 2) ^ n) + 2 * (w + 2) ^ (n + 1) := by linarith
      _ ≤ w * (w + 2) ^ (n + 1) + 2 * (w + 2) ^ (n + 1) := Nat.add_le_add_right hscaled _
      _ = (w + 2) ^ (n + 1 + 1) := by ring

/-- After a step of at most one unit to `w + 1`, the linear part there and the power of `w` exceed the sum
term by no more than what the product term lost. -/
theorem IsInvariantStep.level_le (h : IsInvariantStep n slope sum p u (w + 1)) (hk : 0 < k)
    (hp : p * k ≤ u ^ (n + 1)) (hlost : u ^ (n + 1) ≤ p * k + lost) (hup : w ≤ u) (hdown : u ≤ w + 2)
    (hlarge : 2 * n ≤ w + 2) : slope * (w + 1) * k + w ^ (n + 1) ≤ sum * k + lost := by
  have hu := h.start_pos hk hp
  have hscaled := Nat.mul_le_mul_right k h.mul_le
  obtain rfl | rfl | rfl : w = u ∨ u = w + 1 ∨ u = w + 2 := by omega
  · -- The step rises, and weighs the product term more than is needed.
    have hlevel : slope * (w + 1) * k + p * k ≤ sum * k := by
      apply Nat.le_of_mul_le_mul_right _ hu
      have hrise := Nat.zero_le ((n + 1) * (p * k))
      linarith
    linarith
  · have hlevel : slope * (w + 1) * k + p * k ≤ sum * k := by
      apply Nat.le_of_mul_le_mul_right _ hu
      linarith
    have hpower : w ^ (n + 1) ≤ (w + 1) ^ (n + 1) := Nat.pow_le_pow_left (Nat.le_succ w) _
    linarith
  · -- The step falls, by no more than the derivative of the power accounts for.
    have hlevel : slope * (w + 1) * k + p * k ≤ sum * k + (n + 1) * (w + 2) ^ n := by
      apply Nat.le_of_mul_le_mul_right _ hu
      have hfall := Nat.mul_le_mul_left (n + 1) hp
      rw [pow_succ] at hfall
      linarith
    have hpower := pow_add_derivative_le hlarge
    linarith

end

section

variable {xp xp' : List Amount} {a : Amplification} {bound bound' : ℕ} {d d' : Amount}

/-- What a unit of the invariant weighs in the linear part of the curve. -/
def linearWeight (xp : List Amount) (a : Amplification) : ℕ :=
  (xp.length * a.coefficient.val - 1) * (xp.length ^ xp.length * (xp.map Word.val).prod)

/-- It does not depend on the order of the balances. -/
theorem linearWeight_eq_of_perm (hperm : xp.Perm xp') (a : Amplification) :
    linearWeight xp a = linearWeight xp' a := by
  rw [linearWeight, linearWeight, hperm.length_eq, (hperm.map Word.val).prod_eq]

/-- The linear part at the invariant of positive balances and the power of its predecessor exceed the sum
term by no more than what the product term can lose. -/
theorem AllPositive.invariant_level_le (hpos : AllPositive xp) (h : (invariant xp a bound).result = .ok d)
    (hlarge : 2 * xp.length ≤ d.val + 1) :
    (xp.length * a.coefficient.val - 1) * d.val * (xp.length ^ xp.length * (xp.map Word.val).prod) +
        (d.val - 1) ^ (xp.length + 1) ≤
      xp.length * a.coefficient.val * (xp.map Word.val).sum *
        (xp.length ^ xp.length * (xp.map Word.val).prod) + foldLoss xp.length (d.val + 1) xp := by
  obtain ⟨hcount, -⟩ := invariant_eq_ok h
  obtain ⟨last, -, hstep, hup, hdown⟩ := exists_last_step_of_invariant_eq_ok hpos h
  have hk : 0 < xp.length ^ xp.length * (xp.map Word.val).prod :=
    Nat.mul_pos Nat.pow_self_pos (prod_pos_of_forall_pos hpos)
  have hne : xp ≠ [] := List.ne_nil_of_length_pos (by omega)
  have hlost : last ^ (xp.length + 1) ≤ foldedProduct xp xp.length last *
      (xp.length ^ xp.length * (xp.map Word.val).prod) + foldLoss xp.length (d.val + 1) xp :=
    (lt_foldedProduct_mul_prod_add_foldLoss hne hpos (by omega) last).le.trans
      (Nat.add_le_add_left (foldLoss_mono hdown xp) _)
  obtain ⟨w, hw⟩ : ∃ w, d.val = w + 1 := Nat.exists_eq_add_of_le' (by omega)
  rw [hw] at hstep hup hdown hlarge ⊢
  rw [hw] at hlost
  exact hstep.level_le hk (foldedProduct_mul_prod_le xp xp.length last) hlost (by omega) hdown hlarge

/-- The invariant in one order exceeds that in another by no more than a unit and what the first order
can lose, measured by the linear part of the curve. -/
theorem AllPositive.sub_mul_lt_foldLoss (hpos : AllPositive xp) (hperm : xp.Perm xp')
    (hd : (invariant xp a bound).result = .ok d) (hd' : (invariant xp' a bound').result = .ok d')
    (hlarge : 2 * xp.length ≤ d.val + 1) (hmore : d'.val + 1 < d.val) :
    (d.val - d'.val - 1) * linearWeight xp a < foldLoss xp.length (d.val + 1) xp := by
  have hlevel := hpos.invariant_level_le hd hlarge
  have hbelow := (lt_at_succ_of_invariant_eq_ok (fun x hx => hpos x (hperm.mem_iff.2 hx)) hd').1
  rw [← hperm.length_eq, ← (hperm.map Word.val).sum_eq, ← (hperm.map Word.val).prod_eq] at hbelow
  have hpower : (d'.val + 1) ^ (xp.length + 1) ≤ (d.val - 1) ^ (xp.length + 1) :=
    Nat.pow_le_pow_left (by omega) _
  obtain ⟨gap, hgap⟩ := Nat.exists_eq_add_of_le hmore.le
  have hdistance : d.val - d'.val - 1 = gap := by omega
  rw [hdistance, linearWeight]
  generalize foldLoss xp.length (d.val + 1) xp = loss at hlevel ⊢
  rw [hgap] at hlevel hpower
  linarith

/-- If no more can be lost than a unit weighs, the invariant in another order is at most a unit lower. -/
theorem AllPositive.invariant_le_succ (hpos : AllPositive xp) (hperm : xp.Perm xp')
    (hd : (invariant xp a bound).result = .ok d) (hd' : (invariant xp' a bound').result = .ok d')
    (hlarge : 2 * xp.length ≤ d.val + 1)
    (hloss : foldLoss xp.length (d.val + 1) xp ≤ linearWeight xp a) : d.val ≤ d'.val + 1 := by
  by_contra hmore
  have hlost := hpos.sub_mul_lt_foldLoss hperm hd hd' hlarge (by omega)
  have hunit : linearWeight xp a ≤ (d.val - d'.val - 1) * linearWeight xp a :=
    Nat.le_mul_of_pos_left _ (by omega)
  omega

end

/-- How far apart the invariants of the same positive balances in two orders can be. The larger one exceeds
the smaller one by no more than a unit and what rounding can take from the product term in its order,
measured by what a unit weighs in the linear part of the curve; where that is no more than one unit weighs
in either order, the two are at most one unit apart. Two invariants below twice the number of balances less
one differ by no more than that number less two. -/
theorem invariants_in_any_order {xp xp' : List Amount} {a : Amplification} {bound bound' : ℕ}
    {d d' : Amount} (hperm : xp.Perm xp') (hpos : AllPositive xp)
    (hd : (invariant xp a bound).result = .ok d) (hd' : (invariant xp' a bound').result = .ok d') :
    (2 * xp.length ≤ d.val + 1 → d'.val + 1 < d.val →
      (d.val - d'.val - 1) * linearWeight xp a < foldLoss xp.length (d.val + 1) xp) ∧
    (2 * xp.length ≤ d'.val + 1 → d.val + 1 < d'.val →
      (d'.val - d.val - 1) * linearWeight xp a < foldLoss xp.length (d'.val + 1) xp') ∧
    (d.val + 1 < 2 * xp.length → d'.val + 1 < 2 * xp.length →
      d.val + 2 ≤ d'.val + xp.length ∧ d'.val + 2 ≤ d.val + xp.length) ∧
    (2 * xp.length ≤ d.val + 1 → 2 * xp.length ≤ d'.val + 1 →
      foldLoss xp.length (d.val + 1) xp ≤ linearWeight xp a →
      foldLoss xp.length (d'.val + 1) xp' ≤ linearWeight xp a →
      d.val ≤ d'.val + 1 ∧ d'.val ≤ d.val + 1) := by
  have hpos' : AllPositive xp' := fun x hx => hpos x (hperm.mem_iff.2 hx)
  have hlength := hperm.length_eq
  have hweight := linearWeight_eq_of_perm hperm a
  refine ⟨hpos.sub_mul_lt_foldLoss hperm hd hd', fun hlarge hmore => ?other, fun hsmall hsmall' => ?small,
    fun hlarge hlarge' hloss hloss' => ⟨hpos.invariant_le_succ hperm hd hd' hlarge hloss, ?within⟩⟩
  case other =>
    rw [hlength] at hlarge ⊢
    rw [hweight]
    exact hpos'.sub_mul_lt_foldLoss hperm.symm hd' hd hlarge hmore
  case small =>
    have hleast := hpos.length_le_invariant hd
    have hleast' := hpos'.length_le_invariant hd'
    omega
  case within =>
    rw [hlength] at hlarge' hloss'
    rw [hweight] at hloss'
    exact hpos'.invariant_le_succ hperm.symm hd' hd hlarge' hloss'

/-- Two balances whose invariants in the two orders are two units apart, and three less uneven ones, whose
invariants are a unit apart. -/
theorem invariants_in_any_order_uneven :
    let low : Amplification := ⟨1, by decide⟩
    let high : Amplification := ⟨.lit 2, by decide⟩
    let pair : List Amount := [.lit 88, .lit 1]
    let three : List Amount := [.lit 20, .lit 12, .lit 7]
    pair.Perm pair.reverse ∧ AllPositive pair ∧
      (invariant pair low 255).result = .ok (.lit 38) ∧
      (invariant pair.reverse low 255).result = .ok (.lit 36) ∧
      (38 - 36 - 1) * linearWeight pair low < foldLoss pair.length 39 pair ∧
      three.Perm three.reverse ∧ AllPositive three ∧
      (invariant three high 255).result = .ok (.lit 38) ∧
      (invariant three.reverse high 10).result = .ok (.lit 37) ∧
      38 ≤ 37 + 1 ∧ 37 ≤ 38 + 1 := by
  intro low high pair three
  have hpair : AllPositive pair := by unfold AllPositive; decide
  have hdescending : (invariant pair low 255).result = .ok (.lit 38) := by decide +kernel
  have hascending : (invariant pair.reverse low 255).result = .ok (.lit 36) := by decide +kernel
  have hthree : AllPositive three := by unfold AllPositive; decide
  have hone : (invariant three high 255).result = .ok (.lit 38) := by decide +kernel
  have hother : (invariant three.reverse high 10).result = .ok (.lit 37) := by decide +kernel
  obtain ⟨hapart, -⟩ := invariants_in_any_order (List.reverse_perm pair).symm hpair hdescending hascending
  obtain ⟨-, -, -, hwithin⟩ :=
    invariants_in_any_order (List.reverse_perm three).symm hthree hone hother
  exact ⟨(List.reverse_perm pair).symm, hpair, hdescending, hascending,
    hapart (by decide) (by decide), (List.reverse_perm three).symm, hthree, hone, hother,
    hwithin (by decide) (by decide) (by decide) (by decide)⟩

/-- The invariants of two positive balances in their two orders can be two units apart. -/
theorem invariants_two_units_apart :
    let a : Amplification := ⟨1, by decide⟩
    let xp : List Amount := [.lit 88, .lit 1]
    let xp' : List Amount := [.lit 1, .lit 88]
    2 ≤ xp.length ∧ AllPositive xp ∧ xp.Perm xp' ∧
      ∃ d d' : Amount, (invariant xp a 255).result = .ok d ∧ (invariant xp' a 255).result = .ok d' ∧
        ¬ (d.val ≤ d'.val + 1 ∧ d'.val ≤ d.val + 1) := by
  intro a xp xp'
  refine ⟨by decide, by unfold AllPositive; decide, List.Perm.swap _ _ _, .lit 38, .lit 36,
    by decide +kernel, by decide +kernel, by decide⟩

end StablePool.Curve
