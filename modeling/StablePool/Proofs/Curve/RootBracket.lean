import StablePool.Proofs.Curve.FreeBalance

/-!
# A solved balance brackets its root

Two consecutive iterates that agree up to one unit could in principle agree far from the root. They
do not: the last pass is a tangent step that moves by at most one unit, so its result lies within
one unit of the root on either side. An invariant of at most one leaves a constant term of zero and
is returned as it stands.
-/

namespace StablePool.Curve

/-- `y` lies within one unit of the non-negative root of `y ^ 2 + b * y = d * y + c`. -/
structure BracketsRoot (b c d y : ℕ) : Prop where
  lt_succ : d * (y + 1) + c < (y + 1) ^ 2 + b * (y + 1)
  pred_le : 1 ≤ y → (y - 1) ^ 2 + b * (y - 1) ≤ d * (y - 1) + c

/-- A tangent step that moves by at most one unit brackets the root. -/
theorem IsTangentStep.bracketsRoot {b c d y z : ℕ} (h : IsTangentStep b c d y z) (hup : z ≤ y + 1)
    (hdown : y ≤ z + 1) : BracketsRoot b c d z :=
  ⟨h.beyond_succ, fun _ => Nat.le_of_not_lt (h.not_beyond_pred hup hdown)⟩

/-- The last pass of an iteration that settles is a tangent step by at most one unit. -/
theorem exists_last_step_of_settle_pass {q : Quadratic} {d : Amount} {bound : ℕ} {start : Wide}
    {s : Settled} (h : settle (q.pass d) bound start = .ok (some s)) :
    ∃ y, IsTangentStep q.b.val q.c.val d.val y s.value.val ∧ s.value.val ≤ y + 1 ∧
      y ≤ s.value.val + 1 := by
  obtain ⟨y, -, hpass, hclose⟩ :=
    exists_last_pass (fun _ => True) trivial (fun _ _ _ _ => trivial) h
  rw [Word.val_distance] at hclose
  exact ⟨y.val, (Quadratic.pass_eq_ok hpass).1, by omega, by omega⟩

/-- An iteration of tangent steps that settles brackets the root. -/
theorem bracketsRoot_of_settle {q : Quadratic} {d : Amount} {bound : ℕ} {start : Wide}
    {s : Settled} (h : settle (q.pass d) bound start = .ok (some s)) :
    BracketsRoot q.b.val q.c.val d.val s.value.val := by
  obtain ⟨y, hstep, hup, hdown⟩ := exists_last_step_of_settle_pass h
  exact hstep.bracketsRoot hup hdown

/-- An invariant of at most one has no constant term. -/
theorem constantTerm_eq_zero {fixed : List Amount} {count d ann : ℕ} (hd : d ≤ 1)
    (hdivisor : 1 < count * ann) : constantTerm fixed count d ann = 0 := by
  apply Nat.div_eq_of_lt
  calc foldedProduct fixed count d * d ≤ 1 * 1 := Nat.mul_le_mul (foldedProduct_le_one hd) hd
    _ < count * ann := hdivisor

/-- Without a constant term an invariant of at most one brackets its own root. -/
theorem bracketsRoot_self {b d : ℕ} (hd : d ≤ 1) : BracketsRoot b 0 d d := by
  obtain rfl | rfl : d = 0 ∨ d = 1 := by omega
  · exact ⟨by omega, by omega⟩
  · exact ⟨by omega, fun _ => by omega⟩

/-- The free balance that a solve returns brackets the root of the quadratic of the fixed
balances. -/
theorem bracketsRoot_of_freeBalance {solver : String} {fixed : List Amount} {count : ℕ}
    {d : Amount} {a : Amplification} {bound : ℕ} {y : Amount}
    (h : (freeBalance solver fixed count d a bound).result = .ok y) :
    BracketsRoot (linearTerm fixed d.val (count * a.coefficient.val))
      (constantTerm fixed count d.val (count * a.coefficient.val)) d.val y.val := by
  obtain ⟨q, hcount, hb, hc, hsolved⟩ := freeBalance_eq_ok h
  rw [← hb, ← hc]
  obtain ⟨hd, rfl⟩ | ⟨s, hsettled, hy⟩ := hsolved
  · have hann : count ≤ count * a.coefficient.val := Nat.le_mul_of_pos_right _ a.coefficient_pos
    have hdivisor : 1 < count * (count * a.coefficient.val) := by
      calc 1 < 2 * 2 := by decide
        _ ≤ count * (count * a.coefficient.val) := Nat.mul_le_mul hcount (hcount.trans hann)
    rw [hc, constantTerm_eq_zero hd hdivisor]
    exact bracketsRoot_self hd
  · rw [hy]
    exact bracketsRoot_of_settle hsettled

/-- Whatever a balance solver returns brackets the root of the quadratic that its fixed balances,
the invariant and the amplification give. -/
theorem solved_balance_bracketsRoot :
    (∀ (i j : ℕ) (x : Amount) (xp : List Amount) (d : Amount) (a : Amplification) (bound : ℕ)
        (y : Amount), (outputBalance i j x xp d a bound).result = .ok y →
      BracketsRoot (linearTerm ((xp.set i x).eraseIdx j) d.val (xp.length * a.coefficient.val))
        (constantTerm ((xp.set i x).eraseIdx j) xp.length d.val (xp.length * a.coefficient.val))
        d.val y.val) ∧
    (∀ (i : ℕ) (xp : List Amount) (d : Amount) (a : Amplification) (bound : ℕ) (y : Amount),
      (balanceAt i xp d a bound).result = .ok y →
      BracketsRoot (linearTerm (xp.eraseIdx i) d.val (xp.length * a.coefficient.val))
        (constantTerm (xp.eraseIdx i) xp.length d.val (xp.length * a.coefficient.val))
        d.val y.val) := by
  constructor
  · intro i j x xp d a bound y h
    exact bracketsRoot_of_freeBalance (outputBalance_eq_ok h)
  · intro i xp d a bound y h
    exact bracketsRoot_of_freeBalance (balanceAt_eq_ok h)

/-- Three uneven balances: the output of an exchange that pays in a little of the first asset, and
the balance of the third at nine tenths of the invariant. -/
theorem solved_balance_bracketsRoot_uneven :
    let xp : List Amount := [.lit 1511922780182839, .lit 1932395124083698, .lit 1724082092237124]
    let x : Amount := .lit 1512922780182839
    let a : Amplification := ⟨.lit 2000, by decide⟩
    let d : Amount := .lit 5168386971290620
    let less : Amount := .lit 4651548274161558
    (outputBalance 0 1 x xp d a 255).result = .ok (.lit 1931394998613529) ∧
      BracketsRoot (linearTerm ((xp.set 0 x).eraseIdx 1) d.val (3 * 2000))
        (constantTerm ((xp.set 0 x).eraseIdx 1) 3 d.val (3 * 2000)) d.val 1931394998613529 ∧
      (balanceAt 2 xp less a 255).result = .ok (.lit 1207274413020017) ∧
      BracketsRoot (linearTerm (xp.eraseIdx 2) less.val (3 * 2000))
        (constantTerm (xp.eraseIdx 2) 3 less.val (3 * 2000)) less.val 1207274413020017 := by
  intro xp x a d less
  have houtput : (outputBalance 0 1 x xp d a 255).result = .ok (.lit 1931394998613529) := by
    decide +kernel
  have hbalance : (balanceAt 2 xp less a 255).result = .ok (.lit 1207274413020017) := by
    decide +kernel
  exact ⟨houtput, solved_balance_bracketsRoot.1 0 1 x xp d a 255 _ houtput,
    hbalance, solved_balance_bracketsRoot.2 2 xp less a 255 _ hbalance⟩

end StablePool.Curve
