import Mathlib.Control.Monad.Basic
import StablePool.Proofs.Curve.Computable
import StablePool.Proofs.Curve.CurveLevel
import StablePool.Proofs.Pool.Frame

/-!
# The invariant across an exchange

An exchange solves for the balance that keeps the invariant, and withholds a unit of what the solve
frees. The unit is not paid out, and it is not left in the pool either: the balance that is committed
is the solved one and the fee. A solved balance can lie just below its root, so an exchange whose fee
rounds down to nothing can lower the invariant, by many units if the asset is scarce.

For assets with the scale one the level of the invariant before an exchange exceeds that of the
invariant after it, by one unit more, at most by what the constant term lost to rounding, and by the
rise of the quadratic over a unit if there was no fee.
-/

namespace StablePool.Pool

/-- Native and price-scaled units of every asset are the same. -/
def HasUnitScales (p : Pool) : Prop := ∀ scale ∈ p.scales, scale = .one

instance (p : Pool) : Decidable p.HasUnitScales :=
  inferInstanceAs (Decidable (∀ scale ∈ p.scales, scale = .one))

variable {p : Pool}

/-- With the scale one, balances are their own price-scaled balances. -/
theorem HasUnitScales.scaledOf_eq (h : p.HasUnitScales) {balances : List Amount}
    (hlength : balances.length = p.assetCount) : p.scaledOf balances = .ok balances := by
  rw [scaledOf, Checked.mapM_eq_ok_iff]
  have hstep : ∀ held ∈ balances.zip p.scales, held.2.toScaled held.1 = .ok held.1 := by
    intro held hmem
    rw [h held.2 (List.of_mem_zip hmem).2]
    exact PriceScale.toScaled_eq_ok_iff.2 (PriceScale.scaledUnits_one held.1.val).symm
  have hfst : (balances.zip p.scales).map Prod.fst = balances :=
    List.map_fst_zip (by simp [hlength])
  calc _ = (balances.zip p.scales).map (fun held => (.ok held.1 : Checked Amount)) :=
        List.map_congr_left hstep
    _ = ((balances.zip p.scales).map Prod.fst).map .ok := by rw [List.map_map]; rfl
    _ = balances.map .ok := by rw [hfst]

/-- With the scale one, the invariant is that of the balances. -/
theorem HasUnitScales.result_invariant (h : p.HasUnitScales) :
    p.invariant.result = (p.curveInvariant p.balances).result := by
  rw [invariant, invariantOf, Logged.result_bind, Logged.result_lift,
    h.scaledOf_eq p.length_balances]
  rfl

/-- An asset of a pool with unit scales has the scale one. -/
theorem HasUnitScales.scale_eq (h : p.HasUnitScales) {k : Nat} {asset : Asset}
    (hasset : p.assets[k]? = some asset) : asset.scale = .one :=
  h _ (List.mem_of_getElem? (getElem?_scales hasset))

/-- The amounts of an exchange between assets with the scale one are its quote. -/
structure SwapCourse.IsQuoted (s : SwapCourse) (q : SwapQuote) : Prop where
  balanceIn_eq : q.balanceIn = s.x
  balanceOut_eq : q.balanceOut = s.kept
  fee_eq : q.fee = s.fee

/-- With the scale one, nothing is converted on the way to a quote. -/
theorem SwapCourse.LeadsTo.isQuoted {s : SwapCourse} {i j : Nat} {dx : Amount} {q : SwapQuote}
    (hs : s.LeadsTo p i j dx q) (h : p.HasUnitScales) : s.IsQuoted q := by
  have hsource := h.scale_eq hs.pair_isOf.source_eq
  have htarget := h.scale_eq hs.pair_isOf.target_eq
  constructor
  · rw [Word.ext_iff, hs.val_balanceIn, hsource, PriceScale.nativeUnits_one]
  · rw [Word.ext_iff, hs.val_balanceOut, htarget, PriceScale.nativeUnits_one]
  · rw [Word.ext_iff, hs.val_quotedFee, htarget, PriceScale.nativeUnits_one]

/-- An exchange that succeeds and leaves balances with an invariant leaves them positive. -/
theorem SwapCourse.LeadsTo.allPositive {s : SwapCourse} {i j : Nat} {dx d : Amount} {q : SwapQuote}
    (hs : s.LeadsTo p i j dx q) {balances : List Amount} (hx : balances[i]? = some s.x)
    (hd : (p.curveInvariant balances).result = .ok d) : Curve.AllPositive balances := by
  -- The target had more than nothing, so that the source had too.
  have hpositive : Curve.AllPositive s.pair.xp := by
    refine (Curve.allZero_or_allPositive hs.pair_isOf.invariant_eq).resolve_left fun ⟨hzero, _⟩ => ?_
    have hy := hzero _ (List.mem_of_getElem? hs.pair_isOf.y_eq)
    have hgross := hs.gross_add
    omega
  refine (Curve.allZero_or_allPositive hd).resolve_left fun ⟨hzero, _⟩ => ?_
  have hnone := hzero _ (List.mem_of_getElem? hx)
  have hsome := hpositive _ (List.mem_of_getElem? hs.pair_isOf.x_eq)
  have hsum := hs.val_x
  omega

/-- How far an exchange leaves the target short of its root, at the invariant before it: not at all
if the fee is at least a unit, and otherwise by less than the quadratic rises over the next unit. -/
def shortfall (fixed : List Amount) (ann d balance fee : Nat) : Nat :=
  if fee = 0 then 2 * balance + 1 + Curve.linearTerm fixed d ann - d else 0

/-- What a solve finds lies short of its root by the shortfall at most, once a fee is added. -/
theorem lt_add_shortfall {fixed : List Amount} {n ann d y : Nat}
    (h : Curve.BracketsRoot (Curve.linearTerm fixed d ann) (Curve.constantTerm fixed n d ann) d y)
    (fee : Nat) :
    d * (y + fee) + Curve.constantTerm fixed n d ann <
      (y + fee) ^ 2 + Curve.linearTerm fixed d ann * (y + fee) +
        shortfall fixed ann d (y + fee) fee := by
  unfold shortfall
  split
  · next hnone =>
    rw [hnone, Nat.add_zero]
    exact h.lt_add_rise
  · exact Curve.BeyondRoot.mono h.lt_succ (by omega)

/-- What an exchange between assets with the scale one leaves: the source at its raised balance, the
target at the solved balance and the fee. -/
structure SwapCourse.LeavesBalances (s : SwapCourse) (p : Pool) (i j : Nat) (balances : List Amount) :
    Prop where
  length_eq : balances.length = p.assetCount
  source_eq : balances[i]? = some s.x
  target_eq : balances[j]? = some s.kept
  eraseIdx_eq : balances.eraseIdx j = (s.pair.xp.set i s.x).eraseIdx j

/-- With the scale one, the balances after an exchange are those of its course. -/
theorem SwapCourse.LeadsTo.leavesBalances {s : SwapCourse} {i j : Nat} {dx : Amount} {q : SwapQuote}
    (hs : s.LeadsTo p i j dx q) (hunit : p.HasUnitScales) :
    s.LeavesBalances p i j ((p.setBalance i q.balanceIn).setBalance j q.balanceOut).balances := by
  obtain ⟨hin, hout, -⟩ := hs.isQuoted hunit
  have hxp : s.pair.xp = p.balances :=
    Except.ok.inj (hs.pair_isOf.scaled_eq.symm.trans (hunit.scaledOf_eq p.length_balances))
  obtain ⟨hi, -⟩ := List.getElem?_eq_some_iff.1 (hxp ▸ hs.pair_isOf.x_eq)
  obtain ⟨hj, -⟩ := List.getElem?_eq_some_iff.1 (hxp ▸ hs.pair_isOf.y_eq)
  rw [balances_setBalance, balances_setBalance, hin, hout]
  constructor
  · simp
  · rw [List.getElem?_set_ne hs.pair_isOf.ne.symm, List.getElem?_set_self hi]
  · rw [List.getElem?_set_self (by simpa using hj)]
  · rw [List.eraseIdx_set_eq, hxp]

/-- How far an exchange can lower the invariant of assets with the scale one: the level of the
invariant before it exceeds that of the successor of the invariant after it by less than the loss of
the constant term and the weight of the shortfall of the target. In particular, an exchange with a
fee of at least a unit whose constant term is exact does not lower the invariant. -/
theorem curveAt_lt_of_swapAtLeast {p after : Pool} {i j : Nat} {dx minimum out d0 d1 : Amount}
    {q : SwapQuote} (hunit : p.HasUnitScales) (hquote : (p.quoteSwap i j dx).result = .ok q)
    (hswap : (p.swapAtLeast i j dx minimum).result = .ok (out, after))
    (hbefore : p.invariant.result = .ok d0) (hafter : after.invariant.result = .ok d1) :
    let n := p.assetCount
    let ann := n * p.terms.amplification.coefficient.val
    let fixed := after.balances.eraseIdx j
    let k := n ^ n * (after.balances.map Word.val).prod
    let loss := Curve.constantLoss fixed n d0.val ann
    let short := shortfall fixed ann d0.val q.balanceOut.val q.fee.val
    Curve.curveAt n (ann - 1) k d0.val < Curve.curveAt n (ann - 1) k (d1.val + 1) + loss +
        ann * short * (n ^ n * (fixed.map Word.val).prod) ∧
      (q.fee ≠ 0 → loss = 0 → d0 ≤ d1) := by
  intro n ann fixed k loss short
  have hscales := scales_of_swapAtLeast hswap
  obtain ⟨q', hq', -, rfl, hlast⟩ := swapAtLeast_eq_ok hswap
  obtain rfl : q = q' := Except.ok.inj (hquote.symm.trans hq')
  obtain ⟨s, hs⟩ := exists_course_of_quoteSwap_eq_ok hquote
  have hquoted := hs.isQuoted hunit
  have hleaves : s.LeavesBalances p i j after.balances := hlast ▸ hs.leavesBalances hunit
  have hlength : s.pair.xp.length = n :=
    length_of_scaledOf_eq_ok p.length_balances hs.pair_isOf.scaled_eq
  have hd : s.pair.d = d0 := by
    rw [invariant, invariantOf, Logged.result_bind, Logged.result_lift] at hbefore
    obtain ⟨xp, hxp, hbefore⟩ := Checked.bind_eq_ok_iff.1 hbefore
    obtain rfl : s.pair.xp = xp := Except.ok.inj (hs.pair_isOf.scaled_eq.symm.trans hxp)
    exact Except.ok.inj (hs.pair_isOf.invariant_eq.symm.trans hbefore)
  have hcurve : (p.curveInvariant after.balances).result = .ok d1 := by
    have hunit' : after.HasUnitScales := by rwa [HasUnitScales, hscales]
    have hterms : after.terms = p.terms := by rw [hlast]; rfl
    rw [hunit'.result_invariant, curveInvariant, hterms] at hafter
    exact hafter
  have hbracket := Curve.bracketsRoot_of_freeBalance (Curve.outputBalance_eq_ok hs.solved)
  rw [← hleaves.eraseIdx_eq, hlength, hd] at hbracket
  have hshort := lt_add_shortfall hbracket s.fee.val
  rw [← hs.val_kept, ← hquoted.fee_eq] at hshort
  have hlevel := Curve.curveAt_lt_of_invariant hleaves.length_eq
    (hs.allPositive hleaves.source_eq hcurve) hleaves.target_eq hcurve hshort
  rw [← hquoted.balanceOut_eq] at hlevel
  refine ⟨hlevel, fun hsome hexact => ?_⟩
  have hzero : short = 0 := if_neg (mt Word.eq_zero_iff.2 hsome)
  have hexactLevel : Curve.curveAt n (ann - 1) k d0.val <
      Curve.curveAt n (ann - 1) k (d1.val + 1) := by
    calc Curve.curveAt n (ann - 1) k d0.val
        < Curve.curveAt n (ann - 1) k (d1.val + 1) + loss +
            ann * short * (n ^ n * (fixed.map Word.val).prod) := hlevel
      _ = Curve.curveAt n (ann - 1) k (d1.val + 1) := by
          rw [hzero, hexact, Nat.mul_zero, Nat.zero_mul, Nat.add_zero, Nat.add_zero]
  exact Curve.le_of_curveAt_lt_succ hexactLevel

/-- An even pair, of which one asset is exchanged at a fee of two units: the constant term divides
evenly, and the invariant grows. -/
theorem curveAt_lt_of_swapAtLeast_even :
    let p : Pool := {
      terms := {
        amplification := ⟨.lit 10, by decide⟩
        fee := ⟨.lit 1000⟩
        adminFee := ⟨.lit 0⟩
        maxIterations := Curve.defaultBound
        fee_isValid := by decide
        adminFee_isValid := by decide }
      assets := [⟨.lit 100, 0, .one⟩, ⟨.lit 100, 0, .one⟩]
      tokenSupply := 0 }
    let q : SwapQuote := ⟨.lit 22, .lit 2, .lit 125, .lit 77⟩
    let after : Pool := (p.setBalance 0 q.balanceIn).setBalance 1 q.balanceOut
    let d0 : Amount := .lit 200
    let d1 : Amount := .lit 201
    p.HasUnitScales ∧ (p.quoteSwap 0 1 (.lit 25)).result = .ok q ∧
      (p.swapAtLeast 0 1 (.lit 25) 0).result = .ok (.lit 22, after) ∧
      p.invariant.result = .ok d0 ∧ after.invariant.result = .ok d1 ∧
      q.fee ≠ 0 ∧ Curve.constantLoss (after.balances.eraseIdx 1) 2 d0.val 20 = 0 ∧ d0 ≤ d1 := by
  intro p q after d0 d1
  have hunit : p.HasUnitScales := by decide
  have hquote : (p.quoteSwap 0 1 (.lit 25)).result = .ok q := by decide +kernel
  have hswap : (p.swapAtLeast 0 1 (.lit 25) 0).result = .ok (.lit 22, after) := by decide +kernel
  have hbefore : p.invariant.result = .ok d0 := by decide +kernel
  have hafter : after.invariant.result = .ok d1 := by decide +kernel
  have hfee : q.fee ≠ 0 := by decide
  have hexact : Curve.constantLoss (after.balances.eraseIdx 1) 2 d0.val 20 = 0 := by decide +kernel
  exact ⟨hunit, hquote, hswap, hbefore, hafter, hfee, hexact,
    (curveAt_lt_of_swapAtLeast hunit hquote hswap hbefore hafter).2 hfee hexact⟩

/-- An exchange for a scarce asset, whose fee rounds down to nothing: the invariant falls by more
than two thousand units, because the unit that is withheld is not left in the pool. -/
theorem invariant_falls_by_exchange :
    let c : Config := {
      assetCount := .lit 2
      amplification := ⟨.lit 200, by decide⟩
      fee := ⟨.lit 4⟩
      adminFee := ⟨.lit 5000⟩
      initial := .explicit [.lit 1000, .lit 1000000000]
      priceScales := [.one, .one]
      tokenSupply := 0
      maxIterations := Config.defaultMaxIterations }
    let start : Pool := {
      terms := {
        amplification := c.amplification
        fee := c.fee
        adminFee := c.adminFee
        maxIterations := Curve.defaultBound
        fee_isValid := by decide
        adminFee_isValid := by decide }
      assets := [⟨.lit 1000, 0, .one⟩, ⟨.lit 1000000000, 0, .one⟩]
      tokenSupply := c.tokenSupply }
    let after := (start.respond (.command (.swapAtLeast 1 0 (.lit 10000000) (.lit 20)))).2
    let d0 : Amount := .lit 112414596
    let d1 : Amount := .lit 112411957
    ofConfig c = .ok start ∧ start.HasUnitScales ∧ start.invariant.result = .ok d0 ∧
      (start.swapAtLeast 1 0 (.lit 10000000) (.lit 20)).result = .ok (.lit 20, after) ∧
      after.invariant.result = .ok d1 ∧ d1 < d0 := by
  intro c start after d0 d1
  refine ⟨rfl, by decide, ?_, ?_, ?_, by decide⟩
  · decide +kernel
  · decide +kernel
  · decide +kernel

end StablePool.Pool
