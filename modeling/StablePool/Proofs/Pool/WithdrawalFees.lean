import Mathlib.Algebra.Group.Nat.Defs
import StablePool.Proofs.Curve.OrderedSolves
import StablePool.Proofs.Pool.Commitment

/-!
# The fees of a withdrawal of one asset

A withdrawal of one asset solves for the balance of that asset twice at the same invariant: beside the
other balances as they are, and beside balances that the deviation fees have reduced. Beside smaller
balances the solved one is larger, up to the unit by which two solves can be out of order; that unit is
the one that the payout withholds. The payout therefore never exceeds the payout free of charge, the
difference of the two is a fee that never has to be stopped at zero, and the administrator's share of it
comes out of the payout free of charge.
-/

namespace StablePool.Pool

variable {p : Pool} {tokenAmount : Amount} {i : Nat} {q : AssetWithdrawal}

namespace WithdrawalCourse.LeadsTo

variable {s : WithdrawalCourse}

/-- No charge raises a balance. -/
theorem reduced_le (h : s.LeadsTo p tokenAmount i q) : List.Forall₂ (· ≤ ·) s.reduced s.xp := by
  refine List.forall₂_iff_get.2 ⟨h.length_reduced, fun k hreduced hxp => ?_⟩
  obtain ⟨rate, charged, hcharged, hstep⟩ := h.exists_charged (List.getElem?_eq_getElem hxp)
  rw [List.getElem?_eq_getElem hreduced, Option.some.injEq] at hcharged
  have hle : charged.val ≤ s.xp[k].val := le_of_chargeDeparture_eq_ok hstep
  rw [← hcharged] at hle
  exact hle

/-- The solve beside the reduced balances yields at most a unit less. -/
theorem free_le_succ (h : s.LeadsTo p tokenAmount i q) : s.free.val ≤ s.y.val + 1 := by
  have hcharged := Curve.balanceAt_eq_ok h.solved
  rw [h.length_reduced] at hcharged
  exact Curve.freeBalance_le_succ_of_forall₂_le (Curve.forall₂_le_eraseIdx h.reduced_le i) hcharged
    (Curve.balanceAt_eq_ok h.free_solved)

/-- The payout does not exceed the payout free of charge. -/
theorem amount_le_feeFreeAmount (h : s.LeadsTo p tokenAmount i q) : q.amount ≤ q.feeFreeAmount := by
  have hleft := h.left_le
  have hsolved := h.free_le_succ
  rw [Word.le_iff, h.val_amount, h.val_feeFreeAmount]
  exact PriceScale.nativeUnits_mono _ (by omega)

end WithdrawalCourse.LeadsTo

/-- The administrator's share of a fee is a part of what the payout falls short of the payout free of
charge. -/
theorem skimmed_le (p : Pool) (q : AssetWithdrawal) :
    p.skimmed q ≤ q.feeFreeAmount.val - q.amount.val :=
  p.terms.adminFee_isValid.charge_le _

/-- What a withdrawal of one asset pays and credits to the administrator is what its quote says. -/
theorem paid_and_credited_of_withdrawAsset {minimum out : Amount} {after : Pool}
    (h : (p.withdrawAsset tokenAmount i minimum).result = .ok (out, after))
    (hq : (p.quoteWithdrawAsset tokenAmount i).result = .ok q) :
    out = q.amount ∧
      amountAt after.adminBalances i = amountAt p.adminBalances i + p.skimmed q := by
  obtain ⟨q', asset, adminFee, balance, tokenSupply, adminBalance, hq', -, rfl, hasset, hfee, -, -,
    hadmin, rfl⟩ := withdrawAsset_eq_ok h
  obtain rfl : q = q' := Except.ok.inj (hq.symm.trans hq')
  have hshare : adminFee.val = p.skimmed q := FeeRate.apply_eq_ok_iff.1 hfee
  obtain ⟨hi, -⟩ := List.getElem?_eq_some_iff.1 hasset
  have hafter : ({ p with
      assets := p.assets.set i { asset with balance, adminBalance }, tokenSupply } : Pool).assets[i]? =
        some { asset with balance, adminBalance } := List.getElem?_set_self hi
  refine ⟨rfl, ?_⟩
  rw [amountAt_of_getElem? (getElem?_adminBalances hafter),
    amountAt_of_getElem? (getElem?_adminBalances hasset), ← hshare]
  exact hadmin

/-- Fees never make a withdrawal of one asset pay more: the payout is at most the payout free of charge,
and that is at most the balance. The fee is their exact difference, and the payout with the
administrator's share of the fee, which is what a withdrawal that is carried out pays and credits, is
again at most the payout free of charge. -/
theorem fees_never_raise_withdrawal (h : (p.quoteWithdrawAsset tokenAmount i).result = .ok q) :
    q.amount ≤ q.feeFreeAmount ∧ q.feeFreeAmount.val ≤ amountAt p.balances i ∧
      (q.feeFreeAmount.monus q.amount).val + q.amount.val = q.feeFreeAmount.val ∧
      q.amount.val + p.skimmed q ≤ q.feeFreeAmount.val ∧
      ∀ (minimum out : Amount) (after : Pool),
        (p.withdrawAsset tokenAmount i minimum).result = .ok (out, after) →
        out.val + amountAt after.adminBalances i ≤
          q.feeFreeAmount.val + amountAt p.adminBalances i := by
  obtain ⟨s, hs⟩ := exists_course_of_quoteWithdrawAsset_eq_ok h
  have hpayout : q.amount.val ≤ q.feeFreeAmount.val := hs.amount_le_feeFreeAmount
  have hbalance : q.feeFreeAmount.val ≤ amountAt p.balances i := by
    rw [amountAt_of_getElem? (getElem?_balances hs.asset_eq)]
    exact hs.feeFreeAmount_le
  have hshare := p.skimmed_le q
  refine ⟨hpayout, hbalance, Nat.sub_add_cancel hpayout, by omega, ?_⟩
  intro minimum out after hafter
  obtain ⟨rfl, hcredited⟩ := paid_and_credited_of_withdrawAsset hafter h
  omega

/-- A quarter of the tokens of an uneven pool of two assets with 18 and 6 decimals, for the second asset:
of a fee of 101 native units the administrator is credited with 50. -/
theorem fees_never_raise_withdrawal_mixed_decimals :
    let p : Pool := {
      terms := {
        amplification := ⟨.lit 200, by decide⟩
        fee := ⟨.lit 4⟩
        adminFee := ⟨.lit 5000⟩
        maxIterations := Curve.defaultBound
        fee_isValid := by decide
        adminFee_isValid := by decide }
      assets := [⟨.lit (10 ^ 18), .lit 7, .one⟩, ⟨.lit 3000000, 0, ⟨.lit (10 ^ 30), by decide⟩⟩]
      tokenSupply := .lit (4 * 10 ^ 18) }
    let q : AssetWithdrawal := ⟨.lit 1001451, .lit 1001552⟩
    let after : Pool := {
      terms := p.terms
      assets := [⟨.lit (10 ^ 18), .lit 7, .one⟩,
        ⟨.lit 1998499, .lit 50, ⟨.lit (10 ^ 30), by decide⟩⟩]
      tokenSupply := .lit (3 * 10 ^ 18) }
    (p.quoteWithdrawAsset (.lit (10 ^ 18)) 1).result = .ok q ∧ q.amount ≤ q.feeFreeAmount ∧
      q.feeFreeAmount.val ≤ amountAt p.balances 1 ∧
      (q.feeFreeAmount.monus q.amount).val + q.amount.val = q.feeFreeAmount.val ∧
      q.amount.val + p.skimmed q ≤ q.feeFreeAmount.val ∧
      (p.withdrawAsset (.lit (10 ^ 18)) 1 0).result = .ok (q.amount, after) ∧
      q.amount.val + amountAt after.adminBalances 1 ≤
        q.feeFreeAmount.val + amountAt p.adminBalances 1 := by
  intro p q after
  have hquote : (p.quoteWithdrawAsset (.lit (10 ^ 18)) 1).result = .ok q := by decide +kernel
  have hwithdrawal : (p.withdrawAsset (.lit (10 ^ 18)) 1 0).result = .ok (q.amount, after) := by
    decide +kernel
  obtain ⟨hpayout, hbalance, hfee, hshare, hcarried⟩ := fees_never_raise_withdrawal hquote
  exact ⟨hquote, hpayout, hbalance, hfee, hshare, hwithdrawal, hcarried 0 q.amount after hwithdrawal⟩

end StablePool.Pool
