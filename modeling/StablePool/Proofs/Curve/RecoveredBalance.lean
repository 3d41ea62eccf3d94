import StablePool.Proofs.Curve.EqualBalances
import StablePool.Proofs.Curve.PairedQuadratics

/-!
# Solving for one of equal balances

Beside all but one of `n` equal balances `x`, at their invariant `n * x`, every fold of the constant term
but the last is exact. With `q` the share of the invariant that enters the linear term, the quadratic of
the free balance is then `(y - x) * (y + q)` less a remainder smaller than `x`, so that `x` is the last
number up to its root.

That a settled iterate brackets the root leaves `x` and the number after it. The pass that settled
excludes the latter: a tangent step from within two units above `x` ends at `x`.
-/

namespace StablePool.Curve

section

variable {b c d q x y z : ℕ}

/-- If the quadratic is `(y - x) * (y + q)` less a remainder smaller than `x`, then `x` is the last number
up to its root. -/
theorem isRootFloor_of_remainder_lt (hlinear : b + x = d + q) (hle : x * q ≤ c)
    (hlt : c < x * q + x) : IsRootFloor b c d x where
  not_beyond := by
    rw [beyondRoot_iff_lt_mul hlinear]
    exact Nat.not_lt.2 hle
  beyond_succ := by
    have hsucc : b + (x + 1) = d + (q + 1) := by omega
    rw [beyondRoot_iff_lt_mul hsucc]
    calc c < x * q + x := hlt
      _ = x * (q + 1) := by ring
      _ ≤ (x + 1) * (q + 1) := Nat.mul_le_mul_right _ (Nat.le_succ x)

/-- What brackets a root is the last number up to it or the next one. -/
theorem BracketsRoot.eq_or_eq_succ (h : BracketsRoot b c d y) (hs : IsRootFloor b c d x) :
    y = x ∨ y = x + 1 := by
  have hleast := h.le_of_not_beyondRoot hs.not_beyond
  have hmost := h.le_of_beyondRoot hs.beyond_succ
  omega

/-- On such a quadratic, no step of at most one unit ends just above `x`. -/
theorem IsTangentStep.ne_succ_of_remainder_lt (h : IsTangentStep b c d y z)
    (hlinear : b + x = d + q) (hlt : c < x * q + x) (hup : z ≤ y + 1) (hdown : y ≤ z + 1) :
    z ≠ x + 1 := by
  rintro rfl
  have hstep : (x + 1) * (2 * y + b - d) ≤ y ^ 2 + c := h.eq_div ▸ Nat.div_mul_le_self _ _
  obtain rfl | rfl | rfl : x = y ∨ y = x + 1 ∨ y = x + 2 := by omega
  · rw [show 2 * x + b - d = x + q by omega] at hstep
    nlinarith
  · rw [show 2 * (x + 1) + b - d = x + 2 + q by omega] at hstep
    nlinarith
  · rw [show 2 * (x + 2) + b - d = x + 4 + q by omega] at hstep
    nlinarith

/-- A step of at most one unit on such a quadratic ends at `x`. -/
theorem IsTangentStep.eq_of_remainder_lt (h : IsTangentStep b c d y z) (hlinear : b + x = d + q)
    (hle : x * q ≤ c) (hlt : c < x * q + x) (hup : z ≤ y + 1) (hdown : y ≤ z + 1) : z = x :=
  ((h.bracketsRoot hup hdown).eq_or_eq_succ
    (isRootFloor_of_remainder_lt hlinear hle hlt)).resolve_right
      (h.ne_succ_of_remainder_lt hlinear hlt hup hdown)

end

section

variable {n ann : ℕ} {x : Amount}

/-- All but one of equal balances and the last one add up to their sum, the share in the linear term
aside. -/
theorem linearTerm_replicate (hn : 0 < n) (x : Amount) (ann : ℕ) :
    linearTerm (List.replicate (n - 1) x) (n * x.val) ann + x.val =
      n * x.val + n * x.val / ann := by
  obtain ⟨others, rfl⟩ := Nat.exists_eq_add_of_le' hn
  rw [linearTerm, sum_replicate, Nat.add_sub_cancel, Nat.succ_mul others x.val]
  omega

/-- The constant term beside equal balances is rounded in its last quotient alone. -/
theorem constantTerm_replicate (hn : 0 < n) (hx : 0 < x.val) (m ann : ℕ) :
    constantTerm (List.replicate m x) n (n * x.val) ann = x.val * (n * x.val) / ann := by
  rw [constantTerm, foldedProduct_replicate hn hx, Nat.mul_assoc]
  exact Nat.mul_div_mul_left _ _ hn

/-- Rounding a share before it is multiplied loses less than the factor. -/
theorem mul_div_lt_mul_div_add (d : ℕ) {x ann : ℕ} (hx : 0 < x) (hann : 0 < ann) :
    x * d / ann < x * (d / ann) + x := by
  apply Nat.div_lt_of_lt_mul
  calc x * d < x * (ann * (d / ann + 1)) := Nat.mul_lt_mul_of_pos_left (Nat.lt_mul_div_succ d hann) hx
    _ = ann * (x * (d / ann) + x) := by ring

/-- What is solved for beside all but one of equal balances, at their invariant, is the last one. -/
theorem eq_of_freeBalance_replicate {solver : String} {d : Amount} {a : Amplification} {bound : ℕ}
    {y : Amount} (hx : 0 < x.val) (hd : d.val = n * x.val)
    (h : (freeBalance solver (List.replicate (n - 1) x) n d a bound).result = .ok y) : y = x := by
  obtain ⟨q, hcount, hb, hc, hsolved⟩ := freeBalance_eq_ok h
  have hn : 0 < n := by omega
  have hann : 0 < n * a.coefficient.val := Nat.mul_pos hn a.coefficient_pos
  have hlarge : 2 ≤ d.val := hd ▸ hcount.trans (Nat.le_mul_of_pos_right n hx)
  obtain ⟨hsmall, -⟩ | ⟨s, hsettled, hy⟩ := hsolved
  · omega
  · obtain ⟨y₀, hstep, hup, hdown⟩ := exists_last_step_of_settle_pass hsettled
    rw [hd] at hb hc
    rw [hb, hc, hd, constantTerm_replicate hn hx] at hstep
    refine Word.ext (hy.trans (hstep.eq_of_remainder_lt (linearTerm_replicate hn x _) ?_ ?_ hup hdown))
    · exact Nat.mul_div_le_mul_div_assoc _ _ _
    · exact mul_div_lt_mul_div_add _ hx hann

/-- Both balance solvers recover one of equal positive balances from the others at their invariant, which
is their sum: what they yield is the balance itself, and never one unit off, whatever the number of
balances, the amplification and the bound on the passes. -/
theorem equal_balances_recovered (hx : 0 < x.val) (a : Amplification) {d : Amount}
    (hd : d.val = n * x.val) :
    (∀ bound d', (invariant (List.replicate n x) a bound).result = .ok d' → d' = d) ∧
    (∀ j bound y, (balanceAt j (List.replicate n x) d a bound).result = .ok y → y = x) ∧
    ∀ i j bound y, (outputBalance i j x (List.replicate n x) d a bound).result = .ok y → y = x := by
  have hothers (j : ℕ) (hj : j < n) : (List.replicate n x).eraseIdx j = List.replicate (n - 1) x := by
    rw [List.eraseIdx_replicate, if_pos hj]
  refine ⟨fun bound d' h => ?_, fun j bound y h => ?_, fun i j bound y h => ?_⟩
  · exact Word.ext ((invariant_replicate_eq_ok hx h).1.trans hd.symm)
  · have hj := lt_of_balanceAt_eq_ok h
    have hsolved := balanceAt_eq_ok h
    rw [List.length_replicate] at hj hsolved
    rw [hothers j hj] at hsolved
    exact eq_of_freeBalance_replicate hx hd hsolved
  · obtain ⟨-, hj, -⟩ := lt_of_outputBalance_eq_ok h
    have hsolved := outputBalance_eq_ok h
    rw [List.length_replicate] at hj hsolved
    rw [List.set_replicate_self, hothers j hj] at hsolved
    exact eq_of_freeBalance_replicate hx hd hsolved

/-- Three balances whose sum leaves a remainder when it is shared by the amplification: the share is one, the
quadratic has a remainder of four, and the balance is recovered from either side. -/
theorem equal_balances_recovered_with_remainder :
    let x : Amount := .lit 10
    let xp := List.replicate 3 x
    let a : Amplification := ⟨.lit 7, by decide⟩
    let d : Amount := .lit 30
    0 < x.val ∧ d.val = 3 * x.val ∧
      constantTerm (List.replicate 2 x) 3 d.val 21 = x.val * (d.val / 21) + 4 ∧
      (invariant xp a 255).result = .ok d ∧ (∀ d', (invariant xp a 255).result = .ok d' → d' = d) ∧
      (balanceAt 1 xp d a 255).result = .ok x ∧
      (∀ y, (balanceAt 1 xp d a 255).result = .ok y → y = x) ∧
      (outputBalance 0 2 x xp d a 255).result = .ok x ∧
      ∀ y, (outputBalance 0 2 x xp d a 255).result = .ok y → y = x := by
  intro x xp a d
  have hx : 0 < x.val := by decide
  have hd : d.val = 3 * x.val := by decide
  obtain ⟨hsum, hbalance, houtput⟩ := equal_balances_recovered hx a hd
  exact ⟨hx, hd, by decide, by decide +kernel, hsum 255, by decide +kernel, hbalance 1 255,
    by decide +kernel, houtput 0 2 255⟩

end

end StablePool.Curve
