import Mathlib.Control.Monad.Basic
import StablePool.Pool.Ledger
import StablePool.Proofs.Curve.RootBracket
import StablePool.Proofs.Pool.SingleAsset

/-!
# What a payout costs in tokens

A deposit is refused if it mints nothing. A withdrawal is not refused if it burns nothing, so that
rounding decides whether a payout has a price. A proportional share of no tokens is nothing. The
tokens burned for chosen amounts are a quotient that is rounded down, and are none as long as the
tokens times the fall of the invariant stay below the invariant. No tokens can still buy some of one
asset, but only where the invariant was computed so low that the asset lies beyond its root by more
than the unit that a withdrawal withholds.

How much can be taken out for nothing is not stated here.
-/

namespace StablePool.Pool

variable {p after : Pool}

/-- Whatever a proportional withdrawal pays is paid for tokens. -/
theorem one_le_of_withdraw_eq_ok {amount : Amount} {shares : List Amount}
    (h : (p.withdraw amount).result = .ok (shares, after)) (hpaid : ∃ share ∈ shares, share ≠ 0) :
    1 ≤ amount.val := by
  obtain ⟨tokenSupply, assets, -, -, hshares, -, -⟩ := withdraw_eq_ok h
  obtain ⟨share, hmem, hsome⟩ := hpaid
  obtain ⟨balance, -, hstep⟩ := Checked.exists_mem_of_mapM_eq_ok hshares hmem
  rw [Word.mulDiv_eq_ok_iff] at hstep
  by_contra hnone
  have hzero : amount.val = 0 := by omega
  rw [hzero, Nat.mul_zero, Nat.zero_div] at hstep
  exact hsome (Word.eq_zero_iff.2 hstep.2)

/-- A withdrawal of chosen amounts burns something exactly if the tokens times the fall of the
invariant reach the invariant. -/
theorem one_le_burn_iff {amounts : List Amount} {burn : Amount}
    (h : (p.withdrawAmounts amounts).result = .ok (burn, after)) :
    ∃ (q : LiquidityQuote) (s : LiquidityCourse),
      (p.quoteWithdrawAmounts amounts).result = .ok q ∧ s.LeadsTo p q.entries ∧
      (1 ≤ burn.val ↔ s.d0.val ≤ p.tokenSupply.val * (s.d0.val - s.d2.val)) := by
  obtain ⟨q, tokenSupply, assets, hq, rfl, -, -, -⟩ := withdrawAmounts_eq_ok h
  obtain ⟨-, s, -, hleads, shrink, hshrink, hburn⟩ := quoteWithdrawAmounts_eq_ok hq
  refine ⟨q, s, hq, hleads, ?_⟩
  rw [Word.mulDiv_eq_ok_iff] at hburn
  obtain ⟨hpos, hburn⟩ := hburn
  rw [hburn, Nat.one_le_div_iff hpos, show shrink.val = s.d0.val - s.d2.val by omega]

/-- Asset `i` has a unit to spare: even with one price-scaled unit less it lies beyond its root at
the computed invariant of the pool. -/
def HasSpareUnit (p : Pool) (i : Nat) : Prop :=
  ∃ (xp : List Amount) (d x : Amount), p.scaled = .ok xp ∧
    (p.curveInvariant xp).result = .ok d ∧ xp[i]? = some x ∧
    Curve.BeyondRoot
      (Curve.linearTerm (xp.eraseIdx i) d.val
        (xp.length * p.terms.amplification.coefficient.val))
      (Curve.constantTerm (xp.eraseIdx i) xp.length d.val
        (xp.length * p.terms.amplification.coefficient.val)) d.val (x.val - 1)

/-- An asset that is paid out for no tokens has a unit to spare. -/
theorem WithdrawalCourse.LeadsTo.hasSpareUnit {s : WithdrawalCourse} {i : Nat} {q : AssetWithdrawal}
    (h : s.LeadsTo p 0 i q) (hpaid : q.amount ≠ 0) : p.HasSpareUnit i := by
  have hd : s.d1 = s.d0 := by
    have hadd := h.d1_add
    rw [Word.val_zero, Nat.zero_mul, Nat.zero_div] at hadd
    exact Word.ext_iff.2 hadd
  have hbracket := Curve.bracketsRoot_of_freeBalance (Curve.balanceAt_eq_ok h.solved)
  rw [h.eraseIdx_reduced hd, h.length_reduced, hd] at hbracket
  -- What is paid is at least one unit, and one more is withheld.
  have hunits : s.left.val - s.y.val - 1 ≠ 0 := by
    intro hzero
    apply hpaid
    rw [Word.eq_zero_iff, h.val_amount, hzero, PriceScale.nativeUnits_zero]
  have hleft := h.left_le
  exact ⟨s.xp, s.d0, s.x, h.scaled_eq, h.invariant_eq, h.x_eq,
    Curve.BeyondRoot.mono hbracket.lt_succ (by omega)⟩

/-- What payouts cost. A proportional share is paid for at least one token. Chosen amounts are paid
for at least one exactly if the tokens times the fall of the invariant reach the invariant. One asset
is paid for at least one token, unless it has a unit to spare. -/
theorem tokens_for_payouts (p : Pool) :
    (∀ (amount : Amount) (shares : List Amount) (after : Pool),
      (p.withdraw amount).result = .ok (shares, after) → (∃ share ∈ shares, share ≠ 0) →
      1 ≤ amount.val) ∧
    (∀ (amounts : List Amount) (burn : Amount) (after : Pool),
      (p.withdrawAmounts amounts).result = .ok (burn, after) →
      ∃ (q : LiquidityQuote) (s : LiquidityCourse),
        (p.quoteWithdrawAmounts amounts).result = .ok q ∧ s.LeadsTo p q.entries ∧
        (1 ≤ burn.val ↔ s.d0.val ≤ p.tokenSupply.val * (s.d0.val - s.d2.val))) ∧
    (∀ (tokenAmount minimum out : Amount) (i : Nat) (after : Pool),
      (p.withdrawAsset tokenAmount i minimum).result = .ok (out, after) → out ≠ 0 →
      1 ≤ tokenAmount.val ∨ p.HasSpareUnit i) := by
  refine ⟨fun amount shares after h hpaid => one_le_of_withdraw_eq_ok h hpaid,
    fun amounts burn after h => one_le_burn_iff h, fun tokenAmount minimum out i after h hpaid => ?_⟩
  obtain ⟨q, _, _, _, _, _, hq, -, rfl, -⟩ := withdrawAsset_eq_ok h
  obtain ⟨s, hs⟩ := exists_course_of_quoteWithdrawAsset_eq_ok hq
  rcases Nat.eq_zero_or_pos tokenAmount.val with hzero | hpos
  · obtain rfl : tokenAmount = 0 := Word.eq_zero_iff.2 hzero
    exact .inr (hs.hasSpareUnit hpaid)
  · exact .inl hpos

/-- An even pool with a token for each unit of the invariant: every kind of payout has its price. -/
theorem tokens_for_payouts_even :
    let p : Pool := {
      terms := {
        amplification := ⟨.lit 200, by decide⟩
        fee := ⟨.lit 4⟩
        adminFee := ⟨.lit 5000⟩
        maxIterations := Curve.defaultBound
        fee_isValid := by decide
        adminFee_isValid := by decide }
      assets := [⟨.lit (10 ^ 18), 0, .one⟩, ⟨.lit (10 ^ 18), 0, .one⟩]
      tokenSupply := .lit (2 * 10 ^ 18) }
    let amount : Amount := .lit 1000
    let shares : List Amount := [.lit 500, .lit 500]
    let out : Amount := .lit 999
    let left (c : Command) : Pool := (p.respond (.command c)).2
    (p.withdraw amount).result = .ok (shares, left (.withdraw amount)) ∧
      (∃ share ∈ shares, share ≠ 0) ∧ 1 ≤ amount.val ∧
      (p.withdrawAmounts shares).result = .ok (amount, left (.withdrawAmounts shares)) ∧
      (∃ (q : LiquidityQuote) (s : LiquidityCourse),
        (p.quoteWithdrawAmounts shares).result = .ok q ∧ s.LeadsTo p q.entries ∧
        (1 ≤ amount.val ↔ s.d0.val ≤ p.tokenSupply.val * (s.d0.val - s.d2.val))) ∧
      (p.withdrawAsset amount 0 0).result = .ok (out, left (.withdrawAsset amount 0 0)) ∧
      out ≠ 0 ∧ (1 ≤ amount.val ∨ p.HasSpareUnit 0) := by
  intro p amount shares out left
  have hwithdraw : (p.withdraw amount).result = .ok (shares, left (.withdraw amount)) := by
    decide +kernel
  have hpaid : ∃ share ∈ shares, share ≠ 0 := by decide
  have hamounts : (p.withdrawAmounts shares).result =
      .ok (amount, left (.withdrawAmounts shares)) := by
    decide +kernel
  have hasset : (p.withdrawAsset amount 0 0).result =
      .ok (out, left (.withdrawAsset amount 0 0)) := by
    decide +kernel
  have hsome : out ≠ 0 := by decide
  have hcost := tokens_for_payouts p
  exact ⟨hwithdraw, hpaid, hcost.1 amount shares _ hwithdraw hpaid, hamounts,
    hcost.2.1 shares amount _ hamounts, hasset, hsome, hcost.2.2 amount 0 out 0 _ hasset hsome⟩

/-- Payouts for nothing: with few tokens for a large invariant, chosen amounts burn none; and no
tokens buy some of an abundant asset, because the invariant was computed too low. -/
theorem payouts_without_tokens :
    let terms (a : Amplification) : Terms := {
      amplification := a
      fee := ⟨.lit 4⟩
      adminFee := ⟨.lit 5000⟩
      maxIterations := Curve.defaultBound
      fee_isValid := by decide
      adminFee_isValid := by decide }
    let config (a : Amplification) (balances : List Amount) (tokenSupply : Amount) : Config := {
      assetCount := .lit 2
      amplification := a
      fee := ⟨.lit 4⟩
      adminFee := ⟨.lit 5000⟩
      initial := .explicit balances
      priceScales := [.one, .one]
      tokenSupply
      maxIterations := Config.defaultMaxIterations }
    let even : Pool := {
      terms := terms ⟨.lit 200, by decide⟩
      assets := [⟨.lit (10 ^ 18), 0, .one⟩, ⟨.lit (10 ^ 18), 0, .one⟩]
      tokenSupply := .lit (10 ^ 9) }
    let uneven : Pool := {
      terms := terms ⟨.lit 1, by decide⟩
      assets := [⟨.lit 100, 0, .one⟩, ⟨.lit 99000000000, 0, .one⟩]
      tokenSupply := .lit (10 ^ 6) }
    let amounts : List Amount := [.lit 900000000, .lit 900000000]
    let left (p : Pool) (c : Command) : Pool := (p.respond (.command c)).2
    ofConfig (config even.terms.amplification even.balances even.tokenSupply) = .ok even ∧
      (even.withdrawAmounts amounts).result = .ok (0, left even (.withdrawAmounts amounts)) ∧
      ofConfig (config uneven.terms.amplification uneven.balances uneven.tokenSupply) =
        .ok uneven ∧
      (uneven.withdrawAsset 0 1 0).result = .ok (.lit 657, left uneven (.withdrawAsset 0 1 0)) := by
  intro terms config even uneven amounts left
  refine ⟨rfl, ?_, rfl, ?_⟩
  · decide +kernel
  · decide +kernel

end StablePool.Pool
