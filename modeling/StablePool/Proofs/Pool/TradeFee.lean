import Mathlib.Algebra.Group.Nat.Defs
import StablePool.Proofs.Agreement
import StablePool.Proofs.Pool.Exchange

/-!
# The trade fee divides what the curve gives

An exchange takes the same from the curve whatever the trade fee. The fee only says how much of it is
paid out and how much stays with the solved balance, and neither of the two parts exceeds what the target
had, so that the fee is never a reason to refuse an exchange. Each part is converted to native units on its
own, and the two together lose at most one native unit against the whole.
-/

namespace StablePool

open Checked (Agree)

/-- The same terms without a trade fee. -/
def Terms.withoutFee (terms : Terms) : Terms :=
  { terms with fee := .zero, fee_isValid := FeeRate.isValid_zero }

/-- The same pool without a trade fee. -/
def Pool.withoutFee (p : Pool) : Pool := { p with terms := p.terms.withoutFee }

/-- The rate zero charges nothing. -/
@[simp] theorem FeeRate.charge_zero (amount : Nat) : FeeRate.zero.charge amount = 0 := by
  rw [charge, show zero.numerator.val = 0 from rfl, Nat.mul_zero, Nat.zero_div]

/-- What an exchange makes of the amount `gross` that it takes from the curve, the balance `y` that it
solves for and the balance `x` of the source. -/
structure SwapQuote.Divides (rate : FeeRate) (target : PriceScale) (gross y : Nat) (q : SwapQuote) :
    Prop where
  val_amountOut : q.amountOut.val = target.nativeUnits (gross - rate.charge gross)
  val_fee : q.fee.val = target.nativeUnits (rate.charge gross)
  val_balanceOut : q.balanceOut.val = target.nativeUnits (y + rate.charge gross)

/-- The quote `q` is the quote `free` with a fee split off its output, up to a native unit of the target
for each of the two parts, and exactly if the scale of the target is one. -/
structure SwapQuote.SplitsFee (target : PriceScale) (q free : SwapQuote) : Prop where
  balanceIn_eq : q.balanceIn = free.balanceIn
  amountOut_add_le : q.amountOut.val + q.fee.val ≤ free.amountOut.val
  le_amountOut_add : free.amountOut.val ≤ q.amountOut.val + q.fee.val + 1
  add_le_balanceOut : free.balanceOut.val + q.fee.val ≤ q.balanceOut.val
  balanceOut_le_add : q.balanceOut.val ≤ free.balanceOut.val + q.fee.val + 1
  amountOut_add_eq : target = .one → q.amountOut.val + q.fee.val = free.amountOut.val
  balanceOut_eq : target = .one → q.balanceOut.val = free.balanceOut.val + q.fee.val

/-- A valid rate splits its fee off the quote without a fee. -/
theorem SwapQuote.Divides.splitsFee {rate : FeeRate} (hvalid : rate.IsValid) {target : PriceScale}
    {gross y : Nat} {q free : SwapQuote} (hq : q.Divides rate target gross y)
    (hfree : free.Divides .zero target gross y) (hin : q.balanceIn = free.balanceIn) :
    q.SplitsFee target free := by
  obtain ⟨hout, hfee, hkept⟩ := hq
  obtain ⟨hfreeOut, -, hfreeKept⟩ := hfree
  rw [FeeRate.charge_zero] at hfreeOut hfreeKept
  have hparts : gross - rate.charge gross + rate.charge gross = gross :=
    Nat.sub_add_cancel (hvalid.charge_le gross)
  have hpaid := target.nativeUnits_add_le (gross - rate.charge gross) (rate.charge gross)
  have hpaid' := target.nativeUnits_add_le_succ (gross - rate.charge gross) (rate.charge gross)
  rw [hparts, ← hout, ← hfee] at hpaid hpaid'
  have hleft := target.nativeUnits_add_le y (rate.charge gross)
  have hleft' := target.nativeUnits_add_le_succ y (rate.charge gross)
  rw [← hkept, ← hfee] at hleft hleft'
  refine ⟨hin, hfreeOut ▸ hpaid, hfreeOut ▸ hpaid', hfreeKept ▸ hleft, hfreeKept ▸ hleft', ?_, ?_⟩
  · rintro rfl
    rw [hout, hfee, hfreeOut, PriceScale.nativeUnits_one, PriceScale.nativeUnits_one,
      PriceScale.nativeUnits_one, hparts, Nat.sub_zero]
  · rintro rfl
    rw [hkept, hfee, hfreeKept, PriceScale.nativeUnits_one, PriceScale.nativeUnits_one,
      PriceScale.nativeUnits_one, Nat.add_zero]

namespace Pool

/-- The last steps of an exchange, which divide the amount `gross` that was taken from the curve. -/
def divideGross (rate : FeeRate) (source target : PriceScale) (x y gross : Amount) :
    Checked SwapQuote := do
  let fee ← rate.apply gross
  let kept ← y.add fee "swap output balance"
  let amountOut ← target.toNative (gross.monus fee)
  let nativeFee ← target.toNative fee
  let balanceIn ← source.toNative x
  let balanceOut ← target.toNative kept
  return { amountOut, fee := nativeFee, balanceIn, balanceOut }

/-- At a valid rate these steps can be refused for the balance of the source alone, since every other
amount is a part of what the target had. -/
theorem exists_divideGross_eq_map {rate : FeeRate} (hvalid : rate.IsValid)
    (source : PriceScale) {target : PriceScale} (x : Amount) {y gross balance : Amount}
    (hle : gross.val + y.val ≤ target.scaledUnits balance.val) (hfits : gross.val + y.val < 2 ^ 128) :
    ∃ amountOut nativeFee balanceOut : Amount,
      divideGross rate source target x y gross =
        (source.toNative x).map (fun balanceIn => ⟨amountOut, nativeFee, balanceIn, balanceOut⟩) ∧
      ∀ balanceIn, SwapQuote.Divides rate target gross.val y.val
        ⟨amountOut, nativeFee, balanceIn, balanceOut⟩ := by
  obtain ⟨fee, hfee, hcharge⟩ := hvalid.exists_apply_eq_ok gross
  have hcharge : fee.val ≤ gross.val := hcharge
  have hval : fee.val = rate.charge gross.val := FeeRate.apply_eq_ok_iff.1 hfee
  obtain ⟨kept, hkept⟩ := Word.exists_add_eq_ok "swap output balance"
    (show y.val + fee.val < 2 ^ 128 by omega)
  have hsum := Word.add_eq_ok_iff.1 hkept
  have hconverted (scaled : Amount) (h : scaled.val ≤ gross.val + y.val) :=
    PriceScale.exists_toNative_eq_ok_of_le (Nat.le_trans h hle)
  obtain ⟨amountOut, hout, houtVal⟩ := hconverted (gross.monus fee) (by rw [Word.val_monus]; omega)
  obtain ⟨nativeFee, hnative, hnativeVal⟩ := hconverted fee (by omega)
  obtain ⟨balanceOut, hleft, hleftVal⟩ := hconverted kept (by omega)
  rw [Word.val_monus, hval] at houtVal
  rw [hval] at hnativeVal
  rw [hsum, hval] at hleftVal
  refine ⟨amountOut, nativeFee, balanceOut, ?_, fun _ => ⟨houtVal, hnativeVal, hleftVal⟩⟩
  simp only [divideGross, hfee, hkept, hout, hnative, hleft, bind, Except.bind, pure, Except.pure]
  cases source.toNative x <;> rfl

/-- The bare curve gives what an exchange takes from it, and the unit that an exchange withholds, if both
are asked for the same price-scaled input. -/
theorem curveOutput_eq_ok_of_steps {p : Pool} {i j : Nat} {dx : Amount} {pair : Pair}
    {x y difference : Amount} (hpair : (p.pair i j).result = .ok pair)
    (hx : pair.x.add dx "swap input balance" = .ok x)
    (hy : (Curve.outputBalance i j x pair.xp pair.d p.terms.amplification
      p.terms.maxIterations).result = .ok y)
    (hdifference : difference.val + y.val = pair.y.val) :
    (p.curveOutput i j dx).result = .ok difference := by
  simp only [curveOutput, Logged.result_bind, Logged.result_lift, Checked.bind_eq_ok_iff]
  exact ⟨pair, hpair, x, hx, y, hy, Word.minus_eq_ok_iff.2 hdifference⟩

/-- The trade fee only divides what is taken from the curve. An exchange under a trade fee and the same
exchange without one are both quoted or are refused with the same cause. If they are quoted, the one quote
splits the fee off the output of the other; and if both assets have the scale one, the payout and the fee
are a unit less than the output of the bare curve. -/
theorem trade_fee_divides_output (p : Pool) (i j : Nat) (dx : Amount) :
    Agree (fun q free => ∃ source target : Asset,
        p.assets[i]? = some source ∧ p.assets[j]? = some target ∧ q.SplitsFee target.scale free ∧
        (source.scale = .one → target.scale = .one → ∃ out : Amount,
          (p.curveOutput i j dx).result = .ok out ∧ q.amountOut.val + q.fee.val + 1 = out.val))
      (p.quoteSwap i j dx).result (p.withoutFee.quoteSwap i j dx).result := by
  simp only [quoteSwap, Logged.result_bind, Logged.result_lift, Logged.result_pure]
  refine .bind_same fun pair hpair => ?_
  refine .bind_same fun paid hpaid => ?_
  refine .bind_same fun x hx => ?_
  refine .bind_same fun y hy => ?_
  refine .bind_same fun difference hdifference => ?_
  refine .bind_same fun gross hgross => ?_
  change Agree _ (divideGross p.terms.fee pair.source.scale pair.target.scale x y gross)
    (divideGross .zero pair.source.scale pair.target.scale x y gross)
  have hof := pair_eq_ok hpair
  have htarget := hof.val_y
  have hfits := pair.y.val_lt
  have hdifference := Word.minus_eq_ok_iff.1 hdifference
  have htaken : gross.val + 1 = difference.val := Word.minus_eq_ok_iff.1 hgross
  have hle : gross.val + y.val ≤ pair.target.scale.scaledUnits pair.target.balance.val := by
    rw [← htarget]
    omega
  obtain ⟨amountOut, fee, balanceOut, hsteps, hdivides⟩ := exists_divideGross_eq_map
    p.terms.fee_isValid pair.source.scale x hle (by omega)
  obtain ⟨freeOut, noFee, freeLeft, hfreeSteps, hfreeDivides⟩ := exists_divideGross_eq_map
    FeeRate.isValid_zero pair.source.scale x hle (by omega)
  rw [hsteps, hfreeSteps]
  cases hin : pair.source.scale.toNative x with
  | error cause => exact .error cause
  | ok balanceIn =>
    have hsplits : SwapQuote.SplitsFee pair.target.scale ⟨amountOut, fee, balanceIn, balanceOut⟩
        ⟨freeOut, noFee, balanceIn, freeLeft⟩ :=
      (hdivides balanceIn).splitsFee p.terms.fee_isValid (hfreeDivides balanceIn) rfl
    refine .ok ⟨pair.source, pair.target, hof.source_eq, hof.target_eq, hsplits, ?_⟩
    intro hsourceOne htargetOne
    have hinput : dx = paid := by
      rw [Word.ext_iff, PriceScale.toScaled_eq_ok_iff.1 hpaid, hsourceOne]
      exact (PriceScale.scaledUnits_one dx.val).symm
    have hsum : amountOut.val + fee.val = freeOut.val := hsplits.amountOut_add_eq htargetOne
    rw [(hfreeDivides balanceIn).val_amountOut, htargetOne, PriceScale.nativeUnits_one,
      FeeRate.charge_zero, Nat.sub_zero] at hsum
    have htotal : amountOut.val + fee.val + 1 = difference.val := by omega
    exact ⟨difference, curveOutput_eq_ok_of_steps hpair (hinput ▸ hx) hy hdifference, htotal⟩

end Pool

end StablePool
