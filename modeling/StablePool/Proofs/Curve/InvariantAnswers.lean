import Mathlib.Algebra.Group.Nat.Defs
import Mathlib.Algebra.Order.BigOperators.Group.List
import StablePool.Proofs.Curve.Denominators

/-!
# What a solve for the invariant answers

Balances that are all zero have the invariant zero, and some but not all of them at zero are refused
before anything else is computed. Positive balances are at least one unit each, and so their real
invariant is at least their number. A rounded step never ends a whole unit below it, so no iterate falls
below the number of balances, however much rounding takes from the product term. The divisor of a pass
is then positive, zero is never an answer, and all that is left to be refused for is a number that
becomes too large, or an iteration that is given up.
-/

namespace StablePool.Curve

/-- The numbers an iteration can pass through: its start, and what a pass leads to from one of them. -/
inductive IterateOf (pass : Wide → Checked Wide) (start : Wide) : Wide → Prop
  | start : IterateOf pass start start
  | next {d z : Wide} (hd : IterateOf pass start d) (hpass : pass d = .ok z) : IterateOf pass start z

/-- A number that lies less than a unit below the invariant of balances of at least one unit is at least
the number of balances. -/
theorem count_le_of_lt_at_succ {n ann sum product z : ℕ} (hann : 0 < ann) (hproduct : 0 < product)
    (hsum : n ≤ sum)
    (h : ann * sum * (n ^ n * product) <
      (ann - 1) * (z + 1) * (n ^ n * product) + (z + 1) ^ (n + 1)) : n ≤ z := by
  by_contra hlt
  have hz : z + 1 ≤ n := by omega
  have hlinear : (ann - 1) * (z + 1) * (n ^ n * product) ≤ (ann - 1) * n * (n ^ n * product) :=
    Nat.mul_le_mul_right _ (Nat.mul_le_mul_left _ hz)
  have hpower : (z + 1) ^ (n + 1) ≤ n * (n ^ n * product) := by
    calc (z + 1) ^ (n + 1) ≤ n ^ (n + 1) := Nat.pow_le_pow_left hz _
      _ = n * n ^ n := Nat.pow_succ'
      _ ≤ n * (n ^ n * product) := Nat.mul_le_mul_left n (Nat.le_mul_of_pos_right _ hproduct)
  have hlevel : ann * n * (n ^ n * product) ≤ ann * sum * (n ^ n * product) :=
    Nat.mul_le_mul_right _ (Nat.mul_le_mul_left _ hsum)
  have hone : (ann - 1) * n * (n ^ n * product) + n * (n ^ n * product) =
      ann * n * (n ^ n * product) := by
    rw [← Nat.add_mul, ← Nat.succ_mul, Nat.succ_eq_add_one, Nat.sub_add_cancel hann]
  omega

section

variable {xp : List Amount} {a : Amplification} {bound : ℕ}

/-- Positive balances add up to at least their number. -/
theorem AllPositive.length_le_sum (h : AllPositive xp) : xp.length ≤ (xp.map Word.val).sum := by
  have hlength : (xp.map Word.val).length = xp.length := List.length_map _
  rw [← hlength]
  apply List.length_le_sum_of_one_le
  intro v hv
  obtain ⟨x, hx, rfl⟩ := List.mem_map.1 hv
  exact h x hx

/-- The invariant of positive balances is at least their number. -/
theorem AllPositive.length_le_invariant (h : AllPositive xp) {d : Amount}
    (hd : (invariant xp a bound).result = .ok d) : xp.length ≤ d.val := by
  obtain ⟨hcount, -⟩ := invariant_eq_ok hd
  have hann : 0 < xp.length * a.coefficient.val := Nat.mul_pos (by omega) a.coefficient_pos
  exact count_le_of_lt_at_succ hann (prod_pos_of_forall_pos h) h.length_le_sum
    (lt_at_succ_of_invariant_eq_ok h hd).1

/-- Every number that the iteration for positive balances passes through is at least their number and
keeps the linear bound. -/
theorem AllPositive.length_le_of_iterateOf (h : AllPositive xp) (hcount : 2 ≤ xp.length) {ann : Amount}
    {sum annSum d : Wide} (hann : 2 ≤ ann.val) (hsum : sum.val = (xp.map Word.val).sum)
    (hannSum : annSum.val = ann.val * sum.val) (hd : IterateOf (invariantPass xp ann annSum) sum d) :
    xp.length ≤ d.val ∧ (ann.val - 1) * d.val ≤ annSum.val := by
  induction hd with
  | start =>
    refine ⟨hsum ▸ h.length_le_sum, ?_⟩
    rw [hannSum]
    exact Nat.mul_le_mul_right _ (Nat.sub_le _ _)
  | @next d z _ hpass ih =>
    have hproduct := prod_pos_of_forall_pos h
    have hk : 0 < xp.length ^ xp.length * (xp.map Word.val).prod :=
      Nat.mul_pos (Nat.pow_pos (by omega)) hproduct
    have hstep := invariantPass_eq_ok hpass
    have hbelow := hstep.lt_at_succ hk (foldedProduct_mul_prod_le xp xp.length d.val) ih.2
    rw [hannSum, hsum] at hbelow
    refine ⟨count_le_of_lt_at_succ (by omega) hproduct h.length_le_sum hbelow, ?_⟩
    exact hstep.slope_mul_le ih.2

/-- Balances some but not all of which are zero are refused for that before anything else is computed,
if their sum fits. -/
theorem invariant_eq_divisionByZero (hcount : 2 ≤ xp.length)
    (hfits : (xp.map Word.val).sum < 2 ^ 256) (hsome : ¬ AllZero xp) (hnone : ¬ AllPositive xp) :
    (invariant xp a bound).result = .error (.divisionByZero "D: zero price-scaled balance") := by
  obtain ⟨sum, hsum⟩ := exists_total_eq_ok hfits
  have hnonzero : sum ≠ 0 := by
    rw [Ne, Word.eq_zero_iff, total_eq_ok hsum, ← allZero_iff_sum_eq_zero]
    exact hsome
  have hzero : ¬ (0 ∉ xp) := by
    intro habsent
    refine hnone fun x hx => Nat.pos_of_ne_zero fun hval => habsent ?_
    rwa [← Word.eq_zero_iff.2 hval]
  rw [invariant, Logged.lift_bind_of_ok ((ensure_eq_ok_iff (u := ())).2 hcount),
    Logged.lift_bind_of_ok hsum, if_neg hnonzero,
    Logged.lift_bind_of_error (ensure_eq_error_iff.2 ⟨hzero, rfl⟩), Logged.result_refuse]

/-- Amounts add up to a wide word, unless there are more of them than an amount can count. -/
theorem sum_lt_of_length_le (h : xp.length ≤ 2 ^ 128) : (xp.map Word.val).sum < 2 ^ 256 := by
  have hbound : ∀ v ∈ xp.map Word.val, v ≤ 2 ^ 128 - 1 := by
    intro v hv
    obtain ⟨x, -, rfl⟩ := List.mem_map.1 hv
    exact Nat.le_sub_one_of_lt x.val_lt
  have hsum := List.sum_le_card_nsmul _ _ hbound
  rw [List.length_map, Nat.nsmul_eq_mul] at hsum
  have hproduct : xp.length * (2 ^ 128 - 1) ≤ 2 ^ 128 * (2 ^ 128 - 1) := Nat.mul_le_mul_right _ h
  omega

end

/-- What a solve for the invariant of two or more balances answers. It is zero exactly if all balances
are. If some but not all are zero, it is refused for a balance of zero, and no other division by zero is
ever the cause; the one list that could be refused for its sum first has more entries than an amount can
count. If all are positive, every iterate is at least the number of balances, no divisor of a pass is
zero, an answer is at least the number of balances, and the cause of a refusal is a number that became
too large or an iteration that was given up. -/
theorem invariant_answers {xp : List Amount} (hcount : 2 ≤ xp.length) (a : Amplification)
    (bound : ℕ) :
    ((invariant xp a bound).result = .ok 0 ↔ AllZero xp) ∧
    (¬ AllZero xp → ¬ AllPositive xp → xp.length ≤ 2 ^ 128 →
      (invariant xp a bound).result = .error (.divisionByZero "D: zero price-scaled balance")) ∧
    (∀ step, (invariant xp a bound).result = .error (.divisionByZero step) →
      ¬ AllZero xp ∧ ¬ AllPositive xp) ∧
    (AllPositive xp →
      (∀ (sum annSum d : Wide) (ann : Amount), total xp = .ok sum → a.ann xp.length = .ok ann →
        ann.widen.mul sum "D: Ann·S" = .ok annSum →
        IterateOf (invariantPass xp ann annSum) sum d →
        xp.length ≤ d.val ∧
          ∀ term, productTerm xp d = .ok term →
            0 < (ann.val - 1) * d.val + (xp.length + 1) * term.val) ∧
      (∀ d, (invariant xp a bound).result = .ok d → xp.length ≤ d.val) ∧
      (∀ cause, (invariant xp a bound).result = .error cause →
        cause.IsOverflow ∨ cause = .notConverged "compute_d" bound)) := by
  refine ⟨⟨fun hzero => ?_, fun hzero => hzero.invariant_eq hcount a bound⟩, ?mixed, ?division,
    fun hpos => ⟨?iterates, fun d hd => hpos.length_le_invariant hd, ?refusals⟩⟩
  · refine ((allZero_or_allPositive hzero).resolve_right fun hpos => ?_).1
    exact Nat.lt_irrefl 0 (hpos.invariant_pos hzero)
  case mixed =>
    intro hsome hnone hlength
    exact invariant_eq_divisionByZero hcount (sum_lt_of_length_le hlength) hsome hnone
  case division =>
    intro step hstep
    have hnot (h : AllZero xp ∨ AllPositive xp) : False :=
      refusesOnly_invariant a bound h _ hstep trivial
    exact ⟨fun h => hnot (.inl h), fun h => hnot (.inr h)⟩
  case iterates =>
    intro sum annSum d ann hsum hann hannSum hd
    have hann : 2 ≤ ann.val := Amplification.ann_eq_ok_iff.1 hann ▸ two_le_ann hcount
    have hiterate := (hpos.length_le_of_iterateOf hcount hann (total_eq_ok hsum)
      (Word.mul_eq_ok_iff.1 hannSum) hd).1
    refine ⟨hiterate, fun term _ => Nat.add_pos_left (Nat.mul_pos ?_ ?_) _⟩
    · omega
    · omega
  case refusals =>
    exact hpos.refusesOnly_invariant (fun _ => .inl trivial) hcount a (.inr rfl)

/-- Three balances of zero, a list with one zero among them, a very uneven list, and the same given up
after a pass. -/
theorem invariant_answers_each_kind :
    let a : Amplification := ⟨.lit 100, by decide⟩
    let empty : List Amount := [0, 0, 0]
    let mixed : List Amount := [.lit (10 ^ 18), 0, .lit 5]
    let uneven : List Amount := [.lit 1, .lit (10 ^ 18), .lit 1000]
    let gaveUp : Error := .notConverged "compute_d" 1
    2 ≤ empty.length ∧ AllZero empty ∧ (invariant empty a 255).result = .ok 0 ∧
      2 ≤ mixed.length ∧ ¬ AllZero mixed ∧ ¬ AllPositive mixed ∧
      (invariant mixed a 255).result = .error (.divisionByZero "D: zero price-scaled balance") ∧
      2 ≤ uneven.length ∧ AllPositive uneven ∧
      (invariant uneven a 255).result = .ok (.lit 53348381592) ∧
      uneven.length ≤ 53348381592 ∧
      (invariant uneven a 1).result = .error gaveUp ∧
      (gaveUp.IsOverflow ∨ gaveUp = .notConverged "compute_d" 1) := by
  intro a empty mixed uneven gaveUp
  have hempty : AllZero empty := by unfold AllZero; decide
  have hmixed : ¬ AllZero mixed := by unfold AllZero; decide
  have hmixed' : ¬ AllPositive mixed := by unfold AllPositive; decide
  have huneven : AllPositive uneven := by unfold AllPositive; decide
  have hd : (invariant uneven a 255).result = .ok (.lit 53348381592) := by decide +kernel
  have hgaveUp : (invariant uneven a 1).result = .error gaveUp := by decide +kernel
  obtain ⟨hzero, -⟩ := invariant_answers (show 2 ≤ empty.length by decide) a 255
  obtain ⟨-, hdivision, -⟩ := invariant_answers (show 2 ≤ mixed.length by decide) a 255
  obtain ⟨-, -, -, hpositive⟩ := invariant_answers (show 2 ≤ uneven.length by decide) a 255
  obtain ⟨-, -, -, hpositive'⟩ := invariant_answers (show 2 ≤ uneven.length by decide) a 1
  exact ⟨by decide, hempty, hzero.2 hempty, by decide, hmixed, hmixed',
    hdivision hmixed hmixed' (by decide), by decide, huneven, hd, (hpositive huneven).2.1 _ hd, hgaveUp,
    (hpositive' huneven).2.2 _ hgaveUp⟩

end StablePool.Curve
