import Mathlib.Algebra.Group.Nat.Defs
import StablePool.Proofs.Curve.OrderedSolves
import StablePool.Proofs.Pool.Exchange

/-!
# Exchanges in order

Of two exchanges of the same pair, the one with the larger input raises the source at least as far, and
its solve for the target yields a balance that is larger by at most one unit. What is taken from the
curve can therefore be smaller by one unit at most; the fee keeps the order of the two amounts and that
distance, and so does the conversion, for which the unit counts as many native units as it stands for.
-/

namespace StablePool.Pool

variable {p : Pool} {i j : Nat} {dx dx' : Amount}

/-- An output of the bare curve comes from a solve beside the raised source. -/
theorem exists_solve_of_curveOutput_eq_ok {out : Amount}
    (h : (p.curveOutput i j dx).result = .ok out) :
    ∃ (pair : Pair) (x y : Amount), pair.IsOf p i j ∧ x.val = pair.x.val + dx.val ∧
      (Curve.outputBalance i j x pair.xp pair.d p.terms.amplification
        p.terms.maxIterations).result = .ok y ∧ out.val + y.val = pair.y.val := by
  simp only [curveOutput, Logged.result_bind, Logged.result_lift, Checked.bind_eq_ok_iff,
    Word.add_eq_ok_iff, Word.minus_eq_ok_iff] at h
  obtain ⟨pair, hpair, x, hx, y, hy, hout⟩ := h
  exact ⟨pair, x, y, pair_eq_ok hpair, hx, hy, hout⟩

/-- A larger source leaves a target that is larger by at most one unit. -/
theorem solve_le_succ {pair : Pair} {x x' y y' : Amount} (hle : x.val ≤ x'.val)
    (h : (Curve.outputBalance i j x pair.xp pair.d p.terms.amplification
      p.terms.maxIterations).result = .ok y)
    (h' : (Curve.outputBalance i j x' pair.xp pair.d p.terms.amplification
      p.terms.maxIterations).result = .ok y') : y'.val ≤ y.val + 1 :=
  Curve.freeBalance_le_succ_of_forall₂_le
    (Curve.forall₂_le_eraseIdx (Curve.forall₂_le_set hle pair.xp i) j)
    (Curve.outputBalance_eq_ok h) (Curve.outputBalance_eq_ok h')

namespace SwapCourse.LeadsTo

variable {s s' : SwapCourse} {q q' : SwapQuote}

/-- A larger input raises the source no less. -/
theorem x_mono (h : s.LeadsTo p i j dx q) (h' : s'.LeadsTo p i j dx' q') (hle : dx ≤ dx') :
    s.x.val ≤ s'.x.val := by
  rw [h.val_x, h'.val_x, h.val_paid, h'.val_paid, h.pair_isOf.eq h'.pair_isOf]
  exact Nat.add_le_add_left (PriceScale.scaledUnits_mono _ hle) _

/-- A larger input takes less from the curve by at most one unit. -/
theorem gross_le_succ (h : s.LeadsTo p i j dx q) (h' : s'.LeadsTo p i j dx' q') (hle : dx ≤ dx') :
    s.gross.val ≤ s'.gross.val + 1 := by
  have hsolved' := h'.solved
  rw [← h.pair_isOf.eq h'.pair_isOf] at hsolved'
  have hsolve := solve_le_succ (h.x_mono h' hle) h.solved hsolved'
  have hgross := h.gross_add
  have hgross' := h'.gross_add
  rw [← h.pair_isOf.eq h'.pair_isOf] at hgross'
  omega

/-- A larger input pays less by at most what one price-scaled unit of the target stands for. -/
theorem amountOut_le (h : s.LeadsTo p i j dx q) (h' : s'.LeadsTo p i j dx' q') (hle : dx ≤ dx') :
    q.amountOut.val ≤ q'.amountOut.val + s.pair.target.scale.nativePerUnit := by
  have hnet : p.terms.fee.net s.gross.val ≤ p.terms.fee.net s'.gross.val + 1 := by
    calc p.terms.fee.net s.gross.val ≤ p.terms.fee.net (s'.gross.val + 1) :=
          p.terms.fee_isValid.net_mono (h.gross_le_succ h' hle)
      _ ≤ p.terms.fee.net s'.gross.val + 1 := FeeRate.net_le_net_sub_add (s'.gross.val + 1) 1
  rw [h.val_amountOut, h'.val_amountOut, h.gross_sub_fee, h'.gross_sub_fee,
    ← h.pair_isOf.eq h'.pair_isOf]
  exact Nat.le_trans (PriceScale.nativeUnits_mono _ hnet) (PriceScale.nativeUnits_succ_le _ _)

/-- A larger input leaves the source with no less. -/
theorem balanceIn_mono (h : s.LeadsTo p i j dx q) (h' : s'.LeadsTo p i j dx' q') (hle : dx ≤ dx') :
    q.balanceIn ≤ q'.balanceIn := by
  rw [Word.le_iff, h.val_balanceIn, h'.val_balanceIn, ← h.pair_isOf.eq h'.pair_isOf]
  exact PriceScale.nativeUnits_mono _ (h.x_mono h' hle)

end SwapCourse.LeadsTo

/-- Selling more never pays less, but for the rounding of one price-scaled unit of the target. Of two
quotes for one pair, that for the larger input leaves the source with no less, and pays less by at most
the native units that a price-scaled unit of the target stands for, rounded up; that is one native unit
if the scale of the target is at least the base. The output of the bare curve falls by at most one
price-scaled unit. -/
theorem selling_more_pays_no_less (hle : dx ≤ dx') :
    (∀ q q', (p.quoteSwap i j dx).result = .ok q → (p.quoteSwap i j dx').result = .ok q' →
      ∃ target, p.assets[j]? = some target ∧
        q.amountOut.val ≤
          q'.amountOut.val + (base.val + target.scale.factor.val - 1) / target.scale.factor.val ∧
        (base ≤ target.scale.factor → q.amountOut.val ≤ q'.amountOut.val + 1) ∧
        q.balanceIn ≤ q'.balanceIn) ∧
    (∀ out out', (p.curveOutput i j dx).result = .ok out →
      (p.curveOutput i j dx').result = .ok out' → out.val ≤ out'.val + 1) := by
  constructor
  · intro q q' hq hq'
    obtain ⟨s, hs⟩ := exists_course_of_quoteSwap_eq_ok hq
    obtain ⟨s', hs'⟩ := exists_course_of_quoteSwap_eq_ok hq'
    have hout := hs.amountOut_le hs' hle
    refine ⟨s.pair.target, hs.pair_isOf.target_eq, hout, fun hbase => ?_, hs.balanceIn_mono hs' hle⟩
    exact Nat.le_trans hout (Nat.add_le_add_left (PriceScale.nativePerUnit_le_one hbase) _)
  · intro out out' hout hout'
    obtain ⟨pair, x, y, hpair, hx, hy, hsum⟩ := exists_solve_of_curveOutput_eq_ok hout
    obtain ⟨pair', x', y', hpair', hx', hy', hsum'⟩ := exists_solve_of_curveOutput_eq_ok hout'
    obtain rfl := hpair.eq hpair'
    have hinput : dx.val ≤ dx'.val := hle
    have hsolve := solve_le_succ (by omega) hy hy'
    omega

/-- An uneven pool of two assets with 18 and 6 decimals: one native unit more of the second asset buys
more of the first, and one price-scaled unit more yields more on the bare curve. -/
theorem selling_more_pays_no_less_mixed_decimals :
    let p : Pool := {
      terms := {
        amplification := ⟨.lit 200, by decide⟩
        fee := ⟨.lit 4⟩
        adminFee := ⟨.lit 5000⟩
        maxIterations := Curve.defaultBound
        fee_isValid := by decide
        adminFee_isValid := by decide }
      assets := [⟨.lit (10 ^ 18), .lit 7, .one⟩, ⟨.lit 3000000, 0, ⟨.lit (10 ^ 30), by decide⟩⟩]
      tokenSupply := .lit (4 * 10 ^ 18) }
    let dx : Amount := .lit 250000
    let dx' : Amount := .lit 250001
    let q : SwapQuote := ⟨.lit 246897211124976913, .lit 98798403811515, .lit 3250000,
      .lit 753102788875023086⟩
    let q' : SwapQuote := ⟨.lit 246898194448433489, .lit 98798797298292, .lit 3250001,
      .lit 753101805551566510⟩
    dx ≤ dx' ∧ (p.quoteSwap 1 0 dx).result = .ok q ∧ (p.quoteSwap 1 0 dx').result = .ok q' ∧
      (∃ target, p.assets[0]? = some target ∧
        q.amountOut.val ≤
          q'.amountOut.val + (base.val + target.scale.factor.val - 1) / target.scale.factor.val ∧
        (base ≤ target.scale.factor → q.amountOut.val ≤ q'.amountOut.val + 1) ∧
        q.balanceIn ≤ q'.balanceIn) ∧
      (p.curveOutput 1 0 dx).result = .ok (.lit 247813) ∧
      (p.curveOutput 1 0 dx').result = .ok (.lit 247814) ∧ 247813 ≤ 247814 + 1 := by
  intro p dx dx' q q'
  have hle : dx ≤ dx' := by decide
  have hq : (p.quoteSwap 1 0 dx).result = .ok q := by decide +kernel
  have hq' : (p.quoteSwap 1 0 dx').result = .ok q' := by decide +kernel
  have hout : (p.curveOutput 1 0 dx).result = .ok (.lit 247813) := by decide +kernel
  have hout' : (p.curveOutput 1 0 dx').result = .ok (.lit 247814) := by decide +kernel
  obtain ⟨hquotes, hcurve⟩ := selling_more_pays_no_less (p := p) (i := 1) (j := 0) hle
  exact ⟨hle, hq, hq', hquotes q q' hq hq', hout, hout', hcurve _ _ hout hout'⟩

end StablePool.Pool
