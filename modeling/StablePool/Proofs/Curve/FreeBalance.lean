import StablePool.Curve.Balance
import StablePool.Proofs.Curve.FoldedProduct
import StablePool.Proofs.Curve.TangentStep

/-!
# The numbers behind a solve for a free balance

The coefficients of the quadratic are natural numbers that depend on the fixed balances, the number
of assets and the invariant alone; the constant term is rounded down after each fixed balance and
once more at the end. A solve that succeeds has formed exactly these coefficients, and each pass
that succeeds is a rounded tangent step on them.

When a solve is refused is not stated here.
-/

namespace StablePool.Curve

/-- The linear coefficient: the sum of the fixed balances and the share of the invariant. -/
def linearTerm (fixed : List Amount) (d ann : ℕ) : ℕ := (fixed.map Word.val).sum + d / ann

/-- The constant term: the product over the fixed balances, divided once more for the
amplification. -/
def constantTerm (fixed : List Amount) (count d ann : ℕ) : ℕ :=
  foldedProduct fixed count d * d / (count * ann)

/-- Holding one more balance fixed extends the sum and the folded product. -/
theorem holdFixed_eq_ok {count : ℕ} {d x : Amount} {sofar held : Quadratic}
    (h : holdFixed count d sofar x = .ok held) :
    held.b.val = sofar.b.val + x.val ∧ held.c.val = sofar.c.val * d.val / (x.val * count) := by
  simp only [holdFixed, Checked.bind_eq_ok_iff, ensure_eq_ok_iff, Word.add_eq_ok_iff,
    Word.times_eq_ok_iff, Word.mul_eq_ok_iff, Word.div_eq_ok_iff, Checked.pure_eq_ok_iff,
    exists_const] at h
  obtain ⟨-, sum, hsum, divisor, hdivisor, grown, hgrown, quotient, ⟨-, hquotient⟩, rfl⟩ := h
  refine ⟨hsum, ?_⟩
  rw [hquotient, hgrown, hdivisor, Nat.mul_comm x.val count]
  rfl

/-- A quadratic that is formed has the coefficients of its fixed balances. -/
theorem quadratic_eq_ok {fixed : List Amount} {count : ℕ} {d ann : Amount} {q : Quadratic}
    (h : quadratic fixed count d ann = .ok q) :
    q.b.val = linearTerm fixed d.val ann.val ∧
      q.c.val = constantTerm fixed count d.val ann.val := by
  simp only [quadratic, Checked.bind_eq_ok_iff, Word.add_eq_ok_iff, Word.times_eq_ok_iff,
    Word.mul_eq_ok_iff, Word.div_eq_ok_iff, Checked.pure_eq_ok_iff] at h
  obtain ⟨held, hheld, divisor, hdivisor, grown, hgrown, c, ⟨-, hc⟩, share, ⟨-, hshare⟩, b, hb,
    rfl⟩ := h
  have hsum : held.b.val = fixed.foldl (fun sum x => sum + x.val) 0 :=
    Checked.view_eq_foldl_of_foldlM_eq_ok (fun q => q.b.val) _
      (fun _ _ _ hstep => (holdFixed_eq_ok hstep).1) hheld
  have hproduct : held.c.val = foldedProduct fixed count d.val :=
    Checked.view_eq_foldl_of_foldlM_eq_ok (fun q => q.c.val) _
      (fun _ _ _ hstep => (holdFixed_eq_ok hstep).2) hheld
  constructor
  · change b.val = linearTerm fixed d.val ann.val
    rw [hb, hsum, hshare, linearTerm, List.sum_eq_foldl, List.foldl_map]
    rfl
  · change c.val = constantTerm fixed count d.val ann.val
    rw [hc, hgrown, hproduct, hdivisor]
    rfl

/-- A pass that succeeds is a rounded tangent step, and started from an amount. -/
theorem Quadratic.pass_eq_ok {q : Quadratic} {d : Amount} {y z : Wide}
    (h : q.pass d y = .ok z) :
    IsTangentStep q.b.val q.c.val d.val y.val z.val ∧ y.val < 2 ^ 128 := by
  simp only [Quadratic.pass, Checked.bind_eq_ok_iff, Word.mul_eq_ok_iff, Word.add_eq_ok_iff,
    Word.times_eq_ok_iff, Word.sub_eq_ok_iff, Word.div_eq_ok_iff, Word.val_widen] at h
  obtain ⟨square, hsquare, numerator, hnumerator, double, hdouble, raised, hraised, denominator,
    hdenominator, hpos, hz⟩ := h
  have hden : denominator.val = 2 * y.val + q.b.val - d.val := by omega
  refine ⟨⟨by omega, ?_⟩, ?_⟩
  · rw [hz, hnumerator, hsquare, hden, pow_two]
  · have hfits := square.val_lt
    rw [hsquare] at hfits
    by_contra hlarge
    have := Nat.mul_le_mul (Nat.le_of_not_lt hlarge) (Nat.le_of_not_lt hlarge)
    omega

/-- A solve that succeeds has settled on its quadratic, or has returned an invariant of at most
one. -/
theorem freeBalance_eq_ok {solver : String} {fixed : List Amount} {count : ℕ} {d : Amount}
    {a : Amplification} {bound : ℕ} {y : Amount}
    (h : (freeBalance solver fixed count d a bound).result = .ok y) :
    ∃ q : Quadratic, 2 ≤ count ∧
      q.b.val = linearTerm fixed d.val (count * a.coefficient.val) ∧
      q.c.val = constantTerm fixed count d.val (count * a.coefficient.val) ∧
      (d.val ≤ 1 ∧ y = d ∨
        ∃ s, settle (q.pass d) bound d.widen = .ok (some s) ∧ y.val = s.value.val) := by
  simp only [freeBalance, Logged.result_bind, Logged.result_lift, Checked.bind_eq_ok_iff,
    ensure_eq_ok_iff, exists_const, apply_ite Logged.result, Logged.result_pure] at h
  obtain ⟨hcount, ann, hann, q, hq, h⟩ := h
  rw [Amplification.ann_eq_ok_iff] at hann
  obtain ⟨hb, hc⟩ := quadratic_eq_ok hq
  rw [hann] at hb hc
  refine ⟨q, hcount, hb, hc, ?_⟩
  split at h
  · next hsmall => exact .inl ⟨hsmall, (Except.ok.inj h).symm⟩
  · obtain ⟨ended, hended, h⟩ := Checked.bind_eq_ok_iff.1 h
    cases ended with
    | none => simp at h
    | some s => exact .inr ⟨s, hended, Word.narrow_eq_ok_iff.1 h⟩

/-- A balance that is held fixed is positive. -/
theorem pos_of_holdFixed_eq_ok {count : ℕ} {d x : Amount} {sofar held : Quadratic}
    (h : holdFixed count d sofar x = .ok held) : 0 < x.val := by
  obtain ⟨_, hsome, -⟩ := Checked.bind_eq_ok_iff.1 h
  exact Nat.pos_of_ne_zero (mt Word.eq_zero_iff.2 (ensure_eq_ok_iff.1 hsome))

/-- A solve that succeeds holds positive balances fixed. -/
theorem pos_of_freeBalance_eq_ok {solver : String} {fixed : List Amount} {count : ℕ} {d : Amount}
    {a : Amplification} {bound : ℕ} {y : Amount}
    (h : (freeBalance solver fixed count d a bound).result = .ok y) : ∀ x ∈ fixed, 0 < x.val := by
  simp only [freeBalance, quadratic, Logged.result_bind, Logged.result_lift,
    Checked.bind_eq_ok_iff] at h
  obtain ⟨_, -, _, -, _, ⟨_, hheld, -⟩, -⟩ := h
  exact Checked.forall_mem_of_foldlM_eq_ok (P := fun x => 0 < x.val)
    (fun _ _ _ hstep => pos_of_holdFixed_eq_ok hstep) hheld

/-- The two solvers differ in what they fix and in when they are refused, not in how they solve. -/
theorem outputBalance_eq_ok {i j : ℕ} {x : Amount} {xp : List Amount} {d : Amount}
    {a : Amplification} {bound : ℕ} {y : Amount}
    (h : (outputBalance i j x xp d a bound).result = .ok y) :
    (freeBalance "solve_for_output" ((xp.set i x).eraseIdx j) xp.length d a bound).result =
      .ok y := by
  simp only [outputBalance, Logged.result_bind, Logged.result_lift, Checked.bind_eq_ok_iff] at h
  obtain ⟨_, -, _, -, _, -, h⟩ := h
  exact h

/-- An exchange solver that succeeds was asked for two different balances of its list. -/
theorem lt_of_outputBalance_eq_ok {i j : ℕ} {x : Amount} {xp : List Amount} {d : Amount}
    {a : Amplification} {bound : ℕ} {y : Amount}
    (h : (outputBalance i j x xp d a bound).result = .ok y) :
    i < xp.length ∧ j < xp.length ∧ i ≠ j := by
  simp only [outputBalance, Logged.result_bind, Logged.result_lift, Checked.bind_eq_ok_iff,
    entry_eq_ok_iff, ensure_eq_ok_iff, exists_const] at h
  obtain ⟨_, hi, _, hj, hne, -⟩ := h
  exact ⟨(List.getElem?_eq_some_iff.1 hi).1, (List.getElem?_eq_some_iff.1 hj).1, hne⟩

/-- The output beside a new balance of another asset is the free balance beside all of them. -/
theorem outputBalance_eq_freeBalance {i j : ℕ} {xp : List Amount} (hi : i < xp.length)
    (hj : j < xp.length) (hne : i ≠ j) (x d : Amount) (a : Amplification) (bound : ℕ) :
    outputBalance i j x xp d a bound =
      freeBalance "solve_for_output" ((xp.set i x).eraseIdx j) xp.length d a bound := by
  rw [outputBalance, Logged.lift_bind_of_ok (entry_eq_ok_iff.2 (List.getElem?_eq_getElem hi)),
    Logged.lift_bind_of_ok (entry_eq_ok_iff.2 (List.getElem?_eq_getElem hj)),
    Logged.lift_bind_of_ok ((ensure_eq_ok_iff (u := ())).2 hne)]

/-- The balance at an invariant is the free balance beside the other balances. -/
theorem balanceAt_eq_ok {i : ℕ} {xp : List Amount} {d : Amount} {a : Amplification} {bound : ℕ}
    {y : Amount} (h : (balanceAt i xp d a bound).result = .ok y) :
    (freeBalance "solve_for_target_d" (xp.eraseIdx i) xp.length d a bound).result = .ok y := by
  simp only [balanceAt, Logged.result_bind, Logged.result_lift, Checked.bind_eq_ok_iff] at h
  obtain ⟨_, -, h⟩ := h
  exact h

/-- A solver for a given invariant that succeeds was asked for a balance of its list. -/
theorem lt_of_balanceAt_eq_ok {i : ℕ} {xp : List Amount} {d : Amount} {a : Amplification}
    {bound : ℕ} {y : Amount} (h : (balanceAt i xp d a bound).result = .ok y) : i < xp.length := by
  simp only [balanceAt, Logged.result_bind, Logged.result_lift, Checked.bind_eq_ok_iff,
    entry_eq_ok_iff] at h
  obtain ⟨_, hi, -⟩ := h
  exact (List.getElem?_eq_some_iff.1 hi).1

/-- The balance of an asset of the list is solved for beside the others. -/
theorem balanceAt_eq_freeBalance {i : ℕ} {xp : List Amount} (hi : i < xp.length) (d : Amount)
    (a : Amplification) (bound : ℕ) :
    balanceAt i xp d a bound =
      freeBalance "solve_for_target_d" (xp.eraseIdx i) xp.length d a bound := by
  rw [balanceAt, Logged.lift_bind_of_ok (entry_eq_ok_iff.2 (List.getElem?_eq_getElem hi))]

end StablePool.Curve
