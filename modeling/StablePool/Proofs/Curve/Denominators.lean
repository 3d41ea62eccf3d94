import StablePool.Proofs.Curve.Computable

/-!
# No pass for a free balance divides by zero

The divisor of a pass from `y` is `2 * y + b - d`. Every iterate after the first stands at the last
number up to the root or above it, and that number is at least `d - b`: at `d - b` the quadratic
still equals its right side without the constant term. So the divisor is no less than the iterate,
and it is positive but for an iterate of zero with `d = b`. Such an iterate follows only an iterate
of at most one, with which it agrees, so that the iteration ends there.

With positive balances held fixed, a solve for a free balance can therefore only be refused because
a number becomes too large or because the iteration is given up.
-/

namespace StablePool

namespace Curve

open Checked (RefusesOnly)

section

variable {b c d s y z : ℕ}

/-- The root is at least the invariant less the linear coefficient. -/
theorem IsRootFloor.le_add (hs : IsRootFloor b c d s) : d ≤ s + b := by
  by_contra hlt
  have hslope : (s + 1) * (s + 1 + b) ≤ (s + 1) * d := Nat.mul_le_mul_left _ (by omega)
  have hbeyond : d * (s + 1) + c < (s + 1) ^ 2 + b * (s + 1) := hs.beyond_succ
  nlinarith

/-- A step to zero from a divisor without the linear part starts at one or at zero. -/
theorem IsTangentStep.le_one (h : IsTangentStep b c d y 0) (heq : d = b) : y ≤ 1 := by
  have hstep := h.lt_succ_mul
  rw [heq] at hstep
  by_contra hlarge
  have hy : (2 : ℤ) ≤ y := by omega
  push_cast at hstep
  nlinarith [Int.natCast_nonneg c]

/-- After a step that moves by more than one unit, the next divisor is positive. -/
theorem IsTangentStep.lt_of_far (h : IsTangentStep b c d y z) (hfar : 1 < z - y + (y - z)) :
    d < 2 * z + b := by
  obtain ⟨s, hs⟩ := exists_isRootFloor b c d
  have hroot := hs.le_add
  have hfloor := hs.le_step h
  rcases Nat.eq_zero_or_pos z with rfl | hpos
  · have hstart : d = b → y ≤ 1 := h.le_one
    omega
  · omega

end

section

variable {kind : Error → Prop} (hlarge : ∀ step, kind (.overflow step))

include hlarge

/-- A pass with a positive divisor is refused for overflow alone. -/
theorem Quadratic.refusesOnly_pass_of_lt {q : Quadratic} {d : Amount} {y : Wide}
    (h : d.val < 2 * y.val + q.b.val) : RefusesOnly kind (q.pass d y) := by
  refine RefusesOnly.bind (Word.refusesOnly_mul (hlarge _)) fun square _ => ?_
  refine RefusesOnly.bind (Word.refusesOnly_add (hlarge _)) fun numerator _ => ?_
  refine RefusesOnly.bind (Word.refusesOnly_times (hlarge _)) fun double hdouble => ?_
  refine RefusesOnly.bind (Word.refusesOnly_add (hlarge _)) fun raised hraised => ?_
  have hraised : raised.val = 2 * y.val + q.b.val := by
    rw [Word.add_eq_ok_iff.1 hraised, Word.times_eq_ok_iff.1 hdouble]
  have hlt : d.widen.val < raised.val := hraised ▸ h
  refine RefusesOnly.bind (Word.refusesOnly_minus_of_le hlt.le) fun denominator hdenominator => ?_
  apply Word.refusesOnly_div_of_pos
  have hsum := Word.sub_eq_ok_iff.1 hdenominator
  omega

/-- An iteration that starts above one at the invariant itself is refused for overflow alone. -/
theorem Quadratic.refusesOnly_settle (q : Quadratic) {d : Amount} (hd : 1 < d.val) (bound : ℕ) :
    RefusesOnly kind (settle (q.pass d) bound d.widen) := by
  refine refusesOnly_settleFrom_of_kept (fun y => d.val < 2 * y.val + q.b.val)
    (fun y z _ hpass hfar => ?_) (fun y hy => q.refusesOnly_pass_of_lt hlarge hy) 0 bound ?_
  · rw [Word.val_distance] at hfar
    exact (Quadratic.pass_eq_ok hpass).1.lt_of_far hfar
  · change d.val < 2 * d.val + q.b.val
    omega

/-- Holding a positive balance fixed is refused for overflow alone. -/
theorem refusesOnly_holdFixed_of_pos {count : ℕ} (hcount : 0 < count) {x : Amount}
    (hx : 0 < x.val) (d : Amount) (sofar : Quadratic) :
    RefusesOnly kind (holdFixed count d sofar x) := by
  have hsome : x ≠ 0 := mt Word.eq_zero_iff.1 (Nat.ne_of_gt hx)
  refine RefusesOnly.bind (Checked.refusesOnly_ensure_of hsome) fun _ _ => ?_
  refine RefusesOnly.bind (Word.refusesOnly_add (hlarge _)) fun sum _ => ?_
  refine RefusesOnly.bind (Word.refusesOnly_times (hlarge _)) fun divisor hdivisor => ?_
  refine RefusesOnly.bind (Word.refusesOnly_mul (hlarge _)) fun grown _ => ?_
  refine RefusesOnly.bind (Word.refusesOnly_div_of_pos ?_) fun quotient _ => ?_
  · rw [Word.times_eq_ok_iff.1 hdivisor]
    exact Nat.mul_pos hcount hx
  · exact Checked.refusesOnly_pure _

/-- The quadratic beside positive balances is refused for overflow alone. -/
theorem refusesOnly_quadratic_of_pos {fixed : List Amount} (hpos : AllPositive fixed) {count : ℕ}
    (hcount : 0 < count) (d : Amount) {ann : Amount} (hann : 0 < ann.val) :
    RefusesOnly kind (quadratic fixed count d ann) := by
  refine RefusesOnly.bind (Checked.refusesOnly_foldlM_of_mem
    (fun x hx => refusesOnly_holdFixed_of_pos hlarge hcount (hpos x hx) d) _) fun held _ => ?_
  refine RefusesOnly.bind (Word.refusesOnly_times (hlarge _)) fun divisor hdivisor => ?_
  refine RefusesOnly.bind (Word.refusesOnly_mul (hlarge _)) fun grown _ => ?_
  refine RefusesOnly.bind (Word.refusesOnly_div_of_pos ?_) fun c _ => ?_
  · rw [Word.times_eq_ok_iff.1 hdivisor]
    exact Nat.mul_pos hcount hann
  refine RefusesOnly.bind (Word.refusesOnly_div_of_pos hann) fun share _ => ?_
  refine RefusesOnly.bind (Word.refusesOnly_add (hlarge _)) fun b _ => ?_
  exact Checked.refusesOnly_pure _

/-- A solve beside positive balances is refused for overflow, or it is given up. -/
theorem refusesOnly_freeBalance_of_pos {fixed : List Amount} (hpos : AllPositive fixed) {count : ℕ}
    (hcount : 2 ≤ count) (d : Amount) (a : Amplification) {solver : String} {bound : ℕ}
    (hgaveUp : kind (.notConverged solver bound)) :
    RefusesOnly kind (freeBalance solver fixed count d a bound).result := by
  simp only [freeBalance, Logged.result_bind, Logged.result_lift, apply_ite Logged.result,
    Logged.result_pure]
  refine RefusesOnly.bind (Checked.refusesOnly_ensure_of hcount) fun _ _ => ?_
  refine RefusesOnly.bind (Word.refusesOnly_times (hlarge _)) fun ann hann => ?_
  have hann : 0 < ann.val := by
    rw [Amplification.ann_eq_ok_iff.1 hann]
    exact Nat.mul_pos (by omega) a.coefficient_pos
  refine RefusesOnly.bind
    (refusesOnly_quadratic_of_pos hlarge hpos (by omega) d hann) fun q _ => ?_
  split
  · exact Checked.refusesOnly_pure _
  · next hlt =>
    refine RefusesOnly.bind (q.refusesOnly_settle hlarge (Nat.lt_of_not_le hlt) bound)
      fun ended _ => ?_
    exact refusesOnly_conclude (hlarge _) fun _ => hgaveUp

end

/-- With two balances or more, indices among them and positive balances held fixed, a balance solver
is refused only because a number becomes too large or because its iteration is given up: no divisor is
zero and no difference negative. -/
theorem solve_refused_for_overflow_alone {xp : List Amount} (hcount : 2 ≤ xp.length) :
    (∀ (i j : ℕ) (x d : Amount) (a : Amplification) (bound : ℕ) (cause : Error),
      i < xp.length → j < xp.length → i ≠ j → AllPositive ((xp.set i x).eraseIdx j) →
      (outputBalance i j x xp d a bound).result = .error cause →
      cause.IsOverflow ∨ cause = .notConverged "solve_for_output" bound) ∧
    (∀ (i : ℕ) (d : Amount) (a : Amplification) (bound : ℕ) (cause : Error),
      i < xp.length → AllPositive (xp.eraseIdx i) →
      (balanceAt i xp d a bound).result = .error cause →
      cause.IsOverflow ∨ cause = .notConverged "solve_for_target_d" bound) := by
  have hsolve (solver : String) (fixed : List Amount) (d : Amount) (a : Amplification) (bound : ℕ)
      (hpos : AllPositive fixed) :
      RefusesOnly (fun cause => cause.IsOverflow ∨ cause = .notConverged solver bound)
        (freeBalance solver fixed xp.length d a bound).result :=
    refusesOnly_freeBalance_of_pos (fun _ => .inl trivial) hpos hcount d a (.inr rfl)
  constructor
  · intro i j x d a bound cause hi hj hne hpos h
    rw [outputBalance, Logged.result_bind_of_ok (entry_eq_ok_iff.2 (List.getElem?_eq_getElem hi)),
      Logged.result_bind_of_ok (entry_eq_ok_iff.2 (List.getElem?_eq_getElem hj)),
      Logged.result_bind_of_ok
        (show (liftM (ensure _ _) : Logged Unit).result = .ok () from ensure_eq_ok_iff.2 hne)] at h
    exact hsolve _ _ d a bound hpos cause h
  · intro i d a bound cause hi hpos h
    rw [balanceAt,
      Logged.result_bind_of_ok (entry_eq_ok_iff.2 (List.getElem?_eq_getElem hi))] at h
    exact hsolve _ _ d a bound hpos cause h

/-- A start so far below the root that the first iterate cannot be squared, and a single pass, after
which the iterates do not agree yet. -/
theorem solve_refused_for_overflow_alone_far_root :
    let xp : List Amount := [.lit 1000, .lit 7, .lit 250]
    let a : Amplification := ⟨1, by decide⟩
    let d : Amount := .lit (2 ^ 50)
    let squared : Error := .overflow "y: y²"
    let gaveUp : Error := .notConverged "solve_for_target_d" 1
    2 ≤ xp.length ∧ AllPositive ((xp.set 2 1).eraseIdx 0) ∧
      (outputBalance 2 0 1 xp d a 255).result = .error squared ∧
      (squared.IsOverflow ∨ squared = .notConverged "solve_for_output" 255) ∧
      AllPositive (xp.eraseIdx 1) ∧
      (balanceAt 1 xp (.lit 900) a 1).result = .error gaveUp ∧
      (gaveUp.IsOverflow ∨ gaveUp = .notConverged "solve_for_target_d" 1) := by
  intro xp a d squared gaveUp
  have hcount : 2 ≤ xp.length := by decide
  have hoverflow := (solve_refused_for_overflow_alone hcount).1
  have hgaveUp := (solve_refused_for_overflow_alone hcount).2
  have hfixed : AllPositive ((xp.set 2 1).eraseIdx 0) := by unfold AllPositive; decide
  have hsquared : (outputBalance 2 0 1 xp d a 255).result = .error squared := by decide +kernel
  have hfixed' : AllPositive (xp.eraseIdx 1) := by unfold AllPositive; decide
  have hpass : (balanceAt 1 xp (.lit 900) a 1).result = .error gaveUp := by decide +kernel
  exact ⟨hcount, hfixed, hsquared,
    hoverflow 2 0 1 d a 255 squared (by decide) (by decide) (by decide) hfixed hsquared,
    hfixed', hpass, hgaveUp 1 (.lit 900) a 1 gaveUp (by decide) hfixed' hpass⟩

end Curve

end StablePool
