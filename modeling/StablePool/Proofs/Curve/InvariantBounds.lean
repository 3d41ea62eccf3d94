import Mathlib.Algebra.Order.BigOperators.GroupWithZero.List
import StablePool.Curve.Invariant
import StablePool.Proofs.Curve.FoldedProduct
import StablePool.Proofs.Curve.InvariantStep

/-!
# Bounds of the computed invariant

Every iterate keeps the bound of the linear part, `(ann - 1) * d ≤ ann * sum`, which the sum of the
balances satisfies at the start. Under that bound no pass ends a whole unit below the real
invariant, and neither does the result of a solve, whichever pass is its last.

How far above the real invariant a result can lie is not stated here.
-/

namespace StablePool.Curve

/-- What holds of the computed invariant `d` of `n` balances: the curve at `d + 1` is beyond its
zero, and the linear part alone does not exceed the sum term. -/
structure BoundsInvariant (n ann sum product d : ℕ) : Prop where
  lt_succ : ann * sum * n ^ n * product <
    (ann - 1) * (d + 1) * n ^ n * product + (d + 1) ^ (n + 1)
  mul_le : d * (ann - 1) ≤ ann * sum

/-- The total that is formed is the sum of the balances. -/
theorem total_eq_ok {xp : List Amount} {sum : Wide} (h : total xp = .ok sum) :
    sum.val = (xp.map Word.val).sum := by
  have hfold : sum.val = xp.foldl (fun s x => s + x.val) 0 :=
    Checked.view_eq_foldl_of_foldlM_eq_ok Word.val _
      (fun _ _ _ hstep => Word.add_eq_ok_iff.1 hstep) h
  rw [hfold, List.sum_eq_foldl, List.foldl_map]

/-- The product term that is formed is the folded product of all balances. -/
theorem productTerm_eq_ok {xp : List Amount} {d term : Wide} (h : productTerm xp d = .ok term) :
    term.val = foldedProduct xp xp.length d.val := by
  refine Checked.view_eq_foldl_of_foldlM_eq_ok Word.val _ (fun s x t hstep => ?_) h
  simp only [Checked.bind_eq_ok_iff, Word.times_eq_ok_iff, Word.mul_eq_ok_iff, Word.div_eq_ok_iff,
    Word.val_widen] at hstep
  obtain ⟨divisor, hdivisor, grown, hgrown, -, ht⟩ := hstep
  rw [ht, hgrown, hdivisor, Nat.mul_comm x.val]

/-- A pass that succeeds is a rounded step with the folded product as its product term. -/
theorem invariantPass_eq_ok {xp : List Amount} {ann : Amount} {annSum d z : Wide}
    (h : invariantPass xp ann annSum d = .ok z) :
    IsInvariantStep xp.length (ann.val - 1) annSum.val (foldedProduct xp xp.length d.val) d.val
      z.val := by
  simp only [invariantPass, Checked.bind_eq_ok_iff, Word.times_eq_ok_iff, Word.add_eq_ok_iff,
    Word.mul_eq_ok_iff, Word.div_eq_ok_iff] at h
  obtain ⟨term, hterm, weighted, hweighted, sum, hsum, numerator, hnumerator, linear, hlinear,
    power, hpower, denominator, hdenominator, hpos, hz⟩ := h
  have hden : denominator.val = (ann.val - 1) * d.val + (xp.length + 1) * term.val := by
    rw [hdenominator, hlinear, hpower]
  rw [← productTerm_eq_ok hterm]
  refine ⟨hden ▸ hpos, ?_⟩
  rw [hz, hnumerator, hsum, hweighted, hden]

/-- The numerator of a pass that succeeds fits a wide word. -/
theorem numerator_lt_of_invariantPass_eq_ok {xp : List Amount} {ann : Amount} {annSum d z : Wide}
    (h : invariantPass xp ann annSum d = .ok z) :
    (annSum.val + xp.length * foldedProduct xp xp.length d.val) * d.val < 2 ^ 256 := by
  simp only [invariantPass, Checked.bind_eq_ok_iff, Word.times_eq_ok_iff, Word.add_eq_ok_iff,
    Word.mul_eq_ok_iff] at h
  obtain ⟨term, hterm, weighted, hweighted, sum, hsum, numerator, hnumerator, -⟩ := h
  rw [← productTerm_eq_ok hterm, ← hweighted, ← hsum, ← hnumerator]
  exact numerator.val_lt

/-- A solve that succeeds on balances that are not all zero has settled from their sum. -/
theorem invariant_eq_ok {xp : List Amount} {a : Amplification} {bound : ℕ} {d : Amount}
    (h : (invariant xp a bound).result = .ok d) :
    2 ≤ xp.length ∧ ∃ sum : Wide, sum.val = (xp.map Word.val).sum ∧
      (sum.val = 0 ∧ d = 0 ∨
        ∃ (ann : Amount) (annSum : Wide) (s : Settled),
          ann.val = xp.length * a.coefficient.val ∧ annSum.val = ann.val * sum.val ∧
          settle (invariantPass xp ann annSum) bound sum = .ok (some s) ∧ d.val = s.value.val) := by
  simp only [invariant, Logged.result_bind, Logged.result_lift, Checked.bind_eq_ok_iff,
    ensure_eq_ok_iff, exists_const, apply_ite Logged.result, Logged.result_pure] at h
  obtain ⟨hcount, sum, hsum, h⟩ := h
  refine ⟨hcount, sum, total_eq_ok hsum, ?_⟩
  split at h
  · next hzero => exact .inl ⟨Word.eq_zero_iff.1 hzero, (Except.ok.inj h).symm⟩
  · simp only [Checked.bind_eq_ok_iff, ensure_eq_ok_iff, exists_const] at h
    obtain ⟨-, ann, hann, annSum, hannSum, ended, hended, h⟩ := h
    cases ended with
    | none => simp at h
    | some s =>
      exact .inr ⟨ann, annSum, s, Amplification.ann_eq_ok_iff.1 hann, Word.mul_eq_ok_iff.1 hannSum,
        hended, Word.narrow_eq_ok_iff.1 h⟩

/-- A settled iteration of the invariant ends with a step of at most one unit, from an iterate that keeps
the linear bound. -/
theorem exists_last_step_of_settle {xp : List Amount} {ann : Amount} {annSum start : Wide}
    {bound : ℕ} {s : Settled} (hstart : (ann.val - 1) * start.val ≤ annSum.val)
    (h : settle (invariantPass xp ann annSum) bound start = .ok (some s)) :
    ∃ d : ℕ, (ann.val - 1) * d ≤ annSum.val ∧
      IsInvariantStep xp.length (ann.val - 1) annSum.val (foldedProduct xp xp.length d) d
        s.value.val ∧ s.value.val ≤ d + 1 ∧ d ≤ s.value.val + 1 := by
  obtain ⟨d, hd, hpass, hclose⟩ := exists_last_pass (fun d => (ann.val - 1) * d.val ≤ annSum.val) hstart
    (fun x y hx hpass => (invariantPass_eq_ok hpass).slope_mul_le hx) h
  rw [Word.val_distance] at hclose
  exact ⟨d.val, hd, invariantPass_eq_ok hpass, by omega, by omega⟩

/-- Positive balances have a positive product. -/
theorem prod_pos_of_forall_pos {xp : List Amount} (hpos : ∀ x ∈ xp, 0 < x.val) :
    0 < (xp.map Word.val).prod := by
  apply List.prod_pos
  intro v hv
  obtain ⟨x, hx, rfl⟩ := List.mem_map.1 hv
  exact hpos x hx

/-- A solve for positive balances ends with a step of at most one unit, from an iterate that keeps the linear
bound. -/
theorem exists_last_step_of_invariant_eq_ok {xp : List Amount} {a : Amplification} {bound : ℕ}
    {d : Amount} (hpos : ∀ x ∈ xp, 0 < x.val) (h : (invariant xp a bound).result = .ok d) :
    ∃ last : ℕ,
      (xp.length * a.coefficient.val - 1) * last ≤ xp.length * a.coefficient.val * (xp.map Word.val).sum ∧
      IsInvariantStep xp.length (xp.length * a.coefficient.val - 1)
        (xp.length * a.coefficient.val * (xp.map Word.val).sum) (foldedProduct xp xp.length last) last
        d.val ∧ d.val ≤ last + 1 ∧ last ≤ d.val + 1 := by
  obtain ⟨hcount, sum, hsum, hsolved⟩ := invariant_eq_ok h
  obtain ⟨hzero, -⟩ | ⟨ann, annSum, s, hann, hannSum, hsettled, hd⟩ := hsolved
  · -- Two positive balances do not add up to zero.
    cases xp with
    | nil => simp at hcount
    | cons x xp =>
      have hx := hpos x List.mem_cons_self
      rw [hsum, List.map_cons, List.sum_cons] at hzero
      omega
  · have hstart : (ann.val - 1) * sum.val ≤ annSum.val := by
      rw [hannSum]
      exact Nat.mul_le_mul_right _ (Nat.sub_le _ _)
    have hlast := exists_last_step_of_settle hstart hsettled
    rwa [← hd, hannSum, hann, hsum] at hlast

/-- A solve for positive balances ends with a step that lies less than a unit below the solution and
keeps the linear bound. -/
theorem lt_at_succ_of_invariant_eq_ok {xp : List Amount} {a : Amplification} {bound : ℕ}
    {d : Amount} (hpos : ∀ x ∈ xp, 0 < x.val) (h : (invariant xp a bound).result = .ok d) :
    xp.length * a.coefficient.val * (xp.map Word.val).sum *
        (xp.length ^ xp.length * (xp.map Word.val).prod) <
      (xp.length * a.coefficient.val - 1) * (d.val + 1) *
        (xp.length ^ xp.length * (xp.map Word.val).prod) + (d.val + 1) ^ (xp.length + 1) ∧
    (xp.length * a.coefficient.val - 1) * d.val ≤
      xp.length * a.coefficient.val * (xp.map Word.val).sum := by
  obtain ⟨last, hlast, hstep, -, -⟩ := exists_last_step_of_invariant_eq_ok hpos h
  have hk : 0 < xp.length ^ xp.length * (xp.map Word.val).prod :=
    Nat.mul_pos (Nat.pow_self_pos) (prod_pos_of_forall_pos hpos)
  exact ⟨hstep.lt_at_succ hk (foldedProduct_mul_prod_le xp xp.length last) hlast,
    hstep.slope_mul_le hlast⟩

/-- The invariant that is computed for positive balances lies less than a unit below the real one,
and its linear part does not exceed the sum term. -/
theorem computed_invariant_bounds {xp : List Amount} {a : Amplification} {bound : ℕ} {d : Amount}
    (hpos : ∀ x ∈ xp, 0 < x.val) (h : (invariant xp a bound).result = .ok d) :
    BoundsInvariant xp.length (xp.length * a.coefficient.val) (xp.map Word.val).sum
      (xp.map Word.val).prod d.val := by
  obtain ⟨hbelow, habove⟩ := lt_at_succ_of_invariant_eq_ok hpos h
  constructor
  · rw [Nat.mul_assoc _ (xp.length ^ xp.length), Nat.mul_assoc _ (xp.length ^ xp.length)]
    exact hbelow
  · rw [Nat.mul_comm]
    exact habove

/-- An uneven pair, whose invariant lies below the sum of its balances. -/
theorem computed_invariant_bounds_uneven :
    let xp : List Amount := [.lit 1000000000000000000, .lit 3000000000000000000]
    let a : Amplification := ⟨.lit 100, by decide⟩
    (∀ x ∈ xp, 0 < x.val) ∧
      (invariant xp a 255).result = .ok (.lit 3993431643088518257) ∧
      BoundsInvariant xp.length (xp.length * 100) (xp.map Word.val).sum (xp.map Word.val).prod
        3993431643088518257 := by
  intro xp a
  have hpos : ∀ x ∈ xp, 0 < x.val := by decide
  have hsolved : (invariant xp a 255).result = .ok (.lit 3993431643088518257) := by
    decide +kernel
  exact ⟨hpos, hsolved, computed_invariant_bounds hpos hsolved⟩

end StablePool.Curve
