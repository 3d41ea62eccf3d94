import StablePool.Proofs.Curve.FreeBalance
import StablePool.Proofs.Curve.SolveRefusals

/-!
# The balance solvers settle

After its first pass an iteration for a free balance stands at the last number up to the root or
above it. From there every pass at least halves the distance to that number, and a pass from the
number itself moves by at most one. An iterate that is no amount cannot even be squared, so the
distance after the first pass is below `2 ^ 128`, and 130 passes are enough for every input.

The solvers can still be refused, for their arguments or for a step of the arithmetic.
-/

namespace StablePool.Curve

/-- From `s` and above, passes do not fall below `s` and at least halve the distance to it; from `s`
itself they move by at most one. -/
structure HalvesTowards (pass : Wide → Checked Wide) (s : ℕ) : Prop where
  le_pass : ∀ y z, s ≤ y.val → pass y = .ok z → s ≤ z.val
  two_mul_pass_le : ∀ y z, s < y.val → pass y = .ok z → 2 * z.val ≤ y.val + s
  pass_le_succ : ∀ y z, y.val = s → pass y = .ok z → z.val ≤ s + 1

variable {pass : Wide → Checked Wide}

/-- An iteration is given up after a pass exactly if that pass succeeds without agreeing with the
iterate before it, and the rest is given up. -/
theorem settleFrom_succ_eq_none_iff {done more : ℕ} {y : Wide} :
    settleFrom pass done (more + 1) y = .ok none ↔
      ∃ z, pass y = .ok z ∧ 1 < (z.distance y).val ∧
        settleFrom pass (done + 1) more z = .ok none := by
  rw [settleFrom, Checked.bind_eq_ok_iff]
  apply exists_congr
  intro z
  apply and_congr_right
  intro _
  split
  · next hclose => simp [pure, Except.pure, Nat.not_lt.2 hclose]
  · next hfar => simp [Nat.lt_of_not_le hfar]

/-- An iteration settles within one pass more than the rank of its start, if every pass that does not settle
it leads to a lower rank. -/
theorem settleFrom_ne_none_of_rank {P : ℕ → Wide → Prop}
    (hpass : ∀ rank y z, P rank y → pass y = .ok z → 1 < (z.distance y).val → ∃ lower < rank, P lower z)
    {rank done bound : ℕ} {start : Wide} (hstart : P rank start) (hbound : rank < bound) :
    settleFrom pass done bound start ≠ .ok none := by
  induction bound generalizing start rank done with
  | zero => omega
  | succ bound ih =>
    intro hnone
    obtain ⟨z, hz, hfar, hrest⟩ := settleFrom_succ_eq_none_iff.1 hnone
    obtain ⟨lower, hlower, hnext⟩ := hpass rank start z hstart hz hfar
    exact ih hnext (by omega) hrest

/-- An iteration whose distance halves settles within one pass more than the distance has bits. -/
theorem HalvesTowards.settleFrom_ne_none {s k done bound : ℕ} {start : Wide}
    (h : HalvesTowards pass s) (hstart : s ≤ start.val) (hdistance : start.val < s + 2 ^ k)
    (hbound : k < bound) : settleFrom pass done bound start ≠ .ok none := by
  refine settleFrom_ne_none_of_rank (P := fun k y => s ≤ y.val ∧ y.val < s + 2 ^ k) ?_
    ⟨hstart, hdistance⟩ hbound
  rintro k y z ⟨hy, hdistance⟩ hpass hfar
  rw [Word.val_distance] at hfar
  have hfloor := h.le_pass y z hy hpass
  rcases Nat.eq_or_lt_of_le hy with heq | hlt
  · have hstay := h.pass_le_succ y z heq.symm hpass
    omega
  · have hhalf := h.two_mul_pass_le y z hlt hpass
    cases k with
    | zero => omega
    | succ k =>
      have hpow : 2 ^ (k + 1) = 2 * 2 ^ k := Nat.pow_succ'
      exact ⟨k, Nat.lt_succ_self k, hfloor, by omega⟩

/-- Tangent steps halve the distance to the last number up to the root. -/
theorem IsRootFloor.halvesTowards {q : Quadratic} {d : Amount} {s : ℕ}
    (hs : IsRootFloor q.b.val q.c.val d.val s) : HalvesTowards (q.pass d) s where
  le_pass _ _ _ hpass := hs.le_step (Quadratic.pass_eq_ok hpass).1
  two_mul_pass_le _ _ hlt hpass := hs.two_mul_step_le (Quadratic.pass_eq_ok hpass).1 hlt
  pass_le_succ y z heq hpass := by
    have hstep := (Quadratic.pass_eq_ok hpass).1
    rw [heq] at hstep
    exact hs.step_le_succ hstep

/-- An iteration of tangent steps is not given up within 130 passes, wherever it starts. -/
theorem settle_pass_ne_none {q : Quadratic} {d : Amount} {bound : ℕ} {start : Wide}
    (hbound : 130 ≤ bound) : settle (q.pass d) bound start ≠ .ok none := by
  obtain ⟨s, hs⟩ := exists_isRootFloor q.b.val q.c.val d.val
  obtain ⟨more, rfl⟩ := Nat.exists_eq_add_of_le' (Nat.le_trans (by omega : 2 ≤ 130) hbound)
  intro hnone
  obtain ⟨first, hfirst, -, hrest⟩ := settleFrom_succ_eq_none_iff.1 hnone
  -- The second pass squares the first iterate, which must be an amount for that.
  obtain ⟨second, hsecond, -, -⟩ := settleFrom_succ_eq_none_iff.1 hrest
  have hamount := (Quadratic.pass_eq_ok hsecond).2
  have hfloor := hs.le_step (Quadratic.pass_eq_ok hfirst).1
  exact hs.halvesTowards.settleFrom_ne_none (k := 128) hfloor (by omega) (by omega) hrest

/-- Under a bound of 130 or more nothing is given up. -/
theorem gaveUp_blamesCall {d : Amount} {bound : ℕ} (hbound : 130 ≤ bound) (solver : String)
    (q : Quadratic) (hnone : settle (q.pass d) bound d.widen = .ok none) :
    Error.BlamesCall (.notConverged solver bound) :=
  absurd hnone (settle_pass_ne_none hbound)

/-- The balance solver behind an exchange inherits the refusals of the solve. -/
theorem refusesOnly_outputBalance (i j : ℕ) (x : Amount) (xp : List Amount) (d : Amount)
    (a : Amplification) {bound : ℕ} (hbound : 130 ≤ bound) :
    Checked.RefusesOnly Error.BlamesCall (outputBalance i j x xp d a bound).result :=
  (Error.coversCall_blamesCall xp.length).refusesOnly_outputBalance i j x d a
    (gaveUp_blamesCall hbound _)

/-- The balance solver for a given invariant inherits the refusals of the solve. -/
theorem refusesOnly_balanceAt (i : ℕ) (xp : List Amount) (d : Amount) (a : Amplification)
    {bound : ℕ} (hbound : 130 ≤ bound) :
    Checked.RefusesOnly Error.BlamesCall (balanceAt i xp d a bound).result :=
  (Error.coversCall_blamesCall xp.length).refusesOnly_balanceAt i d a (gaveUp_blamesCall hbound _)

/-- An iteration that was given up blames neither the arguments nor the arithmetic. -/
theorem ne_notConverged_of_blamesCall {cause : Error} (h : cause.BlamesCall) (solver : String)
    (passes : ℕ) : cause ≠ .notConverged solver passes := by
  rintro rfl
  rcases h with h | h <;> exact h

/-- Under the default bound on the passes and under every larger one, no input makes a balance
solver give up: it answers, or it is refused for its arguments or by a step of the arithmetic. -/
theorem balance_solvers_settle {bound : ℕ} (hbound : defaultBound ≤ bound) :
    (∀ (i j : ℕ) (x : Amount) (xp : List Amount) (d : Amount) (a : Amplification) (cause : Error),
      (outputBalance i j x xp d a bound).result = .error cause →
      (cause.IsArgument ∨ cause.IsArithmetic) ∧
        ∀ solver passes, cause ≠ .notConverged solver passes) ∧
    (∀ (i : ℕ) (xp : List Amount) (d : Amount) (a : Amplification) (cause : Error),
      (balanceAt i xp d a bound).result = .error cause →
      (cause.IsArgument ∨ cause.IsArithmetic) ∧
        ∀ solver passes, cause ≠ .notConverged solver passes) := by
  have hroom : 130 ≤ bound := Nat.le_trans (by decide) hbound
  constructor
  · intro i j x xp d a cause h
    have hcause := refusesOnly_outputBalance i j x xp d a hroom cause h
    exact ⟨hcause, ne_notConverged_of_blamesCall hcause⟩
  · intro i xp d a cause h
    have hcause := refusesOnly_balanceAt i xp d a hroom cause h
    exact ⟨hcause, ne_notConverged_of_blamesCall hcause⟩

/-- A start so far below the root that the first iterate is no amount: the second pass is refused
for squaring it, and the solve is not given up. An exchange of an asset for itself is refused for
its arguments. -/
theorem balance_solvers_settle_oversized :
    let a : Amplification := ⟨1, by decide⟩
    let d : Amount := .lit (2 ^ 80)
    let squared : Error := .overflow "y: y²"
    let identical : Error := .identicalAssets 1
    defaultBound ≤ 255 ∧
      (outputBalance 1 1 1 [1, 1] d a 255).result = .error identical ∧
      (identical.IsArgument ∨ identical.IsArithmetic) ∧
      (balanceAt 1 [1, 1] d a 255).result = .error squared ∧
      (squared.IsArgument ∨ squared.IsArithmetic) := by
  intro a d squared identical
  have hidentical : (outputBalance 1 1 1 [1, 1] d a 255).result = .error identical := by
    decide +kernel
  have hsquared : (balanceAt 1 [1, 1] d a 255).result = .error squared := by
    decide +kernel
  have hbound : defaultBound ≤ 255 := by decide
  have hsettle := balance_solvers_settle hbound
  exact ⟨hbound, hidentical, (hsettle.1 1 1 1 [1, 1] d a identical hidentical).1,
    hsquared, (hsettle.2 1 [1, 1] d a squared hsquared).1⟩

end StablePool.Curve
