import StablePool.Proofs.Curve.Convergence
import StablePool.Proofs.Curve.InvariantBounds

/-!
# Which balances have an invariant

The invariant is computed only for balances that are all zero or all positive. For positive ones it
is positive, and so is every iterate on the way to it: the divisor of a pass is then at least the
iterate, and no solve for them divides by zero. A solve can still be refused for a sum or a product
that is too large, or given up.
-/

namespace StablePool.Curve

/-- Every balance is zero. -/
def AllZero (xp : List Amount) : Prop := ∀ x ∈ xp, x.val = 0

/-- Every balance is positive. -/
def AllPositive (xp : List Amount) : Prop := ∀ x ∈ xp, 0 < x.val

/-- Balances are all zero exactly if their sum is. -/
theorem allZero_iff_sum_eq_zero {xp : List Amount} :
    AllZero xp ↔ (xp.map Word.val).sum = 0 := by
  simp [AllZero, List.sum_eq_zero_iff_forall_eq_nat]

/-- Positive balances have a positive sum, unless there are none. -/
theorem AllPositive.sum_pos {xp : List Amount} (h : AllPositive xp) (hcount : 2 ≤ xp.length) :
    0 < (xp.map Word.val).sum := by
  cases xp with
  | nil => simp at hcount
  | cons x xp =>
    have hx := h x List.mem_cons_self
    rw [List.map_cons, List.sum_cons]
    omega

/-- Balances with an invariant are all zero, and so is the invariant, or they are all positive. -/
theorem allZero_or_allPositive {xp : List Amount} {a : Amplification} {bound : ℕ} {d : Amount}
    (h : (invariant xp a bound).result = .ok d) :
    AllZero xp ∧ d.val = 0 ∨ AllPositive xp := by
  simp only [invariant, Logged.result_bind, Logged.result_lift, Checked.bind_eq_ok_iff,
    ensure_eq_ok_iff, exists_const, apply_ite Logged.result, Logged.result_pure] at h
  obtain ⟨-, sum, hsum, h⟩ := h
  split at h
  · next hzero =>
    obtain rfl := Except.ok.inj h
    rw [Word.eq_zero_iff, total_eq_ok hsum] at hzero
    exact .inl ⟨allZero_iff_sum_eq_zero.2 hzero, rfl⟩
  · simp only [Checked.bind_eq_ok_iff, ensure_eq_ok_iff, exists_const] at h
    refine .inr fun x hx => Nat.pos_of_ne_zero fun hzero => h.1 ?_
    rwa [← Word.eq_zero_iff.2 hzero]

/-- The coefficient of the solvers is at least two. -/
theorem two_le_ann {xp : List Amount} {a : Amplification} (hcount : 2 ≤ xp.length) :
    2 ≤ xp.length * a.coefficient.val :=
  hcount.trans (Nat.le_mul_of_pos_right _ a.coefficient_pos)

/-- Positive balances have a positive invariant. -/
theorem AllPositive.invariant_pos {xp : List Amount} {a : Amplification} {bound : ℕ} {d : Amount}
    (h : AllPositive xp) (hd : (invariant xp a bound).result = .ok d) : 0 < d.val := by
  obtain ⟨hcount, -⟩ := invariant_eq_ok hd
  have hann : 2 ≤ xp.length * a.coefficient.val := two_le_ann hcount
  have hsum := Nat.le_mul_of_pos_right (xp.length * a.coefficient.val) (h.sum_pos hcount)
  have hk : 0 < xp.length ^ xp.length * (xp.map Word.val).prod :=
    Nat.mul_pos (Nat.pow_pos (by omega)) (prod_pos_of_forall_pos h)
  refine pos_of_lt_at_succ hk ?_ (lt_at_succ_of_invariant_eq_ok h hd).1
  omega

/-- What every iterate of the invariant of positive balances keeps. -/
structure IsIterate (ann annSum d : ℕ) : Prop where
  pos : 0 < d
  mul_le : (ann - 1) * d ≤ annSum

/-- A pass leads from an iterate to an iterate. -/
theorem IsIterate.of_pass {xp : List Amount} {ann : Amount} {annSum d z : Wide}
    (hd : IsIterate ann.val annSum.val d.val) (hxp : AllPositive xp) (hcount : 2 ≤ xp.length)
    (hsum : ann.val - 1 < annSum.val) (h : invariantPass xp ann annSum d = .ok z) :
    IsIterate ann.val annSum.val z.val := by
  have hk : 0 < xp.length ^ xp.length * (xp.map Word.val).prod :=
    Nat.mul_pos (Nat.pow_pos (by omega)) (prod_pos_of_forall_pos hxp)
  have hstep := invariantPass_eq_ok h
  have hbelow := hstep.lt_at_succ hk (foldedProduct_mul_prod_le xp xp.length d.val) hd.mul_le
  exact ⟨pos_of_lt_at_succ hk hsum hbelow, hstep.slope_mul_le hd.mul_le⟩

section

open Checked (RefusesOnly)

variable {kind : Error → Prop} (hlarge : ∀ step, kind (.overflow step))

include hlarge

/-- Forming a product term of positive balances is refused for overflow alone. -/
theorem AllPositive.refusesOnly_productTerm {xp : List Amount} (h : AllPositive xp)
    (hcount : 2 ≤ xp.length) (d : Wide) : RefusesOnly kind (productTerm xp d) := by
  refine Checked.refusesOnly_foldlM_of_mem (fun x hx term => ?_) d
  refine RefusesOnly.bind (Word.refusesOnly_times (hlarge _)) fun divisor hdivisor => ?_
  refine RefusesOnly.bind (Word.refusesOnly_mul (hlarge _)) fun grown _ => ?_
  apply Word.refusesOnly_div_of_pos
  rw [Word.times_eq_ok_iff.1 hdivisor]
  exact Nat.mul_pos (by omega) (h x hx)

/-- A pass from a positive iterate is refused for overflow alone. -/
theorem AllPositive.refusesOnly_invariantPass {xp : List Amount} {ann : Amount} {annSum d : Wide}
    (h : AllPositive xp) (hcount : 2 ≤ xp.length) (hann : 2 ≤ ann.val) (hd : 0 < d.val) :
    RefusesOnly kind (invariantPass xp ann annSum d) := by
  refine RefusesOnly.bind (h.refusesOnly_productTerm hlarge hcount d) fun term _ => ?_
  refine RefusesOnly.bind (Word.refusesOnly_times (hlarge _)) fun weighted _ => ?_
  refine RefusesOnly.bind (Word.refusesOnly_add (hlarge _)) fun sum _ => ?_
  refine RefusesOnly.bind (Word.refusesOnly_mul (hlarge _)) fun numerator _ => ?_
  refine RefusesOnly.bind (Word.refusesOnly_times (hlarge _)) fun linear hlinear => ?_
  refine RefusesOnly.bind (Word.refusesOnly_times (hlarge _)) fun power _ => ?_
  refine RefusesOnly.bind (Word.refusesOnly_add (hlarge _)) fun denominator hdenominator => ?_
  apply Word.refusesOnly_div_of_pos
  rw [Word.add_eq_ok_iff.1 hdenominator, Word.times_eq_ok_iff.1 hlinear]
  exact Nat.add_pos_left (Nat.mul_pos (by omega) hd) _

/-- The invariant of two or more positive balances is refused for overflow, or because its iteration is
given up. -/
theorem AllPositive.refusesOnly_invariant_of_settle {xp : List Amount} (h : AllPositive xp)
    (hcount : 2 ≤ xp.length) (a : Amplification) {bound : ℕ}
    (hgaveUp : ∀ (ann : Amount) (sum annSum : Wide), ann.val = xp.length * a.coefficient.val →
      sum.val = (xp.map Word.val).sum → annSum.val = ann.val * sum.val →
      settle (invariantPass xp ann annSum) bound sum = .ok none →
      kind (.notConverged "compute_d" bound)) :
    RefusesOnly kind (invariant xp a bound).result := by
  simp only [invariant, Logged.result_bind, Logged.result_lift, apply_ite Logged.result,
    Logged.result_pure]
  refine RefusesOnly.bind (Checked.refusesOnly_ensure_of hcount) fun _ _ => ?_
  refine RefusesOnly.bind (Checked.refusesOnly_foldlM
    (fun _ _ => Word.refusesOnly_add (hlarge _)) _ _) fun sum htotal => ?_
  have htotal := total_eq_ok htotal
  split
  · exact Checked.refusesOnly_pure _
  · refine RefusesOnly.bind (Checked.refusesOnly_ensure_of fun hzero => ?_) fun _ _ => ?_
    · exact absurd (h 0 hzero) (Nat.lt_irrefl 0)
    refine RefusesOnly.bind (Word.refusesOnly_times (hlarge _)) fun ann hcoefficient => ?_
    have hcoefficient := Amplification.ann_eq_ok_iff.1 hcoefficient
    have hann : 2 ≤ ann.val := hcoefficient ▸ two_le_ann hcount
    refine RefusesOnly.bind (Word.refusesOnly_mul (hlarge _)) fun annSum hannSum => ?_
    have hannSum : annSum.val = ann.val * sum.val := Word.mul_eq_ok_iff.1 hannSum
    have hsum : 0 < sum.val := htotal ▸ h.sum_pos hcount
    have hslope : ann.val ≤ annSum.val := hannSum ▸ Nat.le_mul_of_pos_right _ hsum
    have hstart : IsIterate ann.val annSum.val sum.val :=
      ⟨hsum, hannSum ▸ Nat.mul_le_mul_right _ (Nat.sub_le _ _)⟩
    refine RefusesOnly.bind (refusesOnly_settleFrom_of_kept
      (fun d => IsIterate ann.val annSum.val d.val)
      (fun d z hd hpass _ => hd.of_pass h hcount (by omega) hpass)
      (fun d hd => h.refusesOnly_invariantPass hlarge hcount hann hd.pos) 0 bound hstart)
      fun ended hended => ?_
    exact refusesOnly_conclude (hlarge _) fun hnone =>
      hgaveUp ann sum annSum hcoefficient htotal hannSum (hnone ▸ hended)

/-- The invariant of two or more positive balances is refused for overflow, or it is given up. -/
theorem AllPositive.refusesOnly_invariant {xp : List Amount} (h : AllPositive xp)
    (hcount : 2 ≤ xp.length) (a : Amplification) {bound : ℕ}
    (hgaveUp : kind (.notConverged "compute_d" bound)) :
    RefusesOnly kind (invariant xp a bound).result :=
  h.refusesOnly_invariant_of_settle hlarge hcount a fun _ _ _ _ _ _ _ => hgaveUp

end

/-- Balances whose sum fits have a total. -/
theorem exists_total_eq_ok {xp : List Amount} (h : (xp.map Word.val).sum < 2 ^ 256) :
    ∃ sum, total xp = .ok sum := by
  have hfold (start : Wide) (hfits : start.val + (xp.map Word.val).sum < 2 ^ 256) :
      ∃ sum, xp.foldlM (fun sum x => sum.add x.widen "D: sum overflow") start = .ok sum := by
    clear h
    induction xp generalizing start with
    | nil => exact ⟨start, rfl⟩
    | cons x xp ih =>
      rw [List.map_cons, List.sum_cons, ← Nat.add_assoc] at hfits
      obtain ⟨next, hnext⟩ := Word.exists_add_eq_ok "D: sum overflow" (a := start) (b := x.widen)
        (Nat.lt_of_le_of_lt (Nat.le_add_right _ _) hfits)
      have hval : next.val = start.val + x.val := Word.add_eq_ok_iff.1 hnext
      obtain ⟨sum, hsum⟩ := ih next (hval ▸ hfits)
      refine ⟨sum, ?_⟩
      rw [List.foldlM_cons]
      exact Checked.bind_eq_ok_iff.2 ⟨next, hnext, hsum⟩
  exact hfold 0 (by simpa using h)

/-- The invariant of two or more balances of zero is zero. -/
theorem AllZero.invariant_eq {xp : List Amount} (h : AllZero xp) (hcount : 2 ≤ xp.length)
    (a : Amplification) (bound : ℕ) : (invariant xp a bound).result = .ok 0 := by
  have hnone : (xp.map Word.val).sum = 0 := allZero_iff_sum_eq_zero.1 h
  obtain ⟨sum, hsum⟩ := exists_total_eq_ok (hnone ▸ Nat.two_pow_pos 256)
  have hzero : sum = 0 := Word.eq_zero_iff.2 ((total_eq_ok hsum).trans hnone)
  rw [invariant, Logged.lift_bind_of_ok ((ensure_eq_ok_iff (u := ())).2 hcount),
    Logged.lift_bind_of_ok hsum, if_pos hzero]
  rfl

/-- The invariant of balances that are all zero or all positive is never refused for a division by
zero. -/
theorem refusesOnly_invariant {xp : List Amount} (a : Amplification) (bound : ℕ)
    (h : AllZero xp ∨ AllPositive xp) :
    Checked.RefusesOnly (¬ ·.IsDivision) (invariant xp a bound).result := by
  by_cases hcount : 2 ≤ xp.length
  · rcases h with hzero | hpositive
    · rw [hzero.invariant_eq hcount]
      exact Checked.refusesOnly_pure _
    · exact hpositive.refusesOnly_invariant (fun _ => not_false) hcount a not_false
  · rw [invariant, Logged.lift_bind_of_error (ensure_eq_error_iff.2 ⟨hcount, rfl⟩)]
    intro cause hcause
    obtain rfl := Except.error.inj hcause
    exact not_false

end StablePool.Curve
