import Mathlib.Control.Monad.Basic
import StablePool.Config
import StablePool.Proofs.Curve.PairedQuadratics
import StablePool.Proofs.Pool.CurveEndings

/-!
# What a reverse quote is good for

A reverse quote solves for the balance of the source beside the balance that the target is to have,
adds a unit to the difference and converts it to native units, rounding down. An exchange of that input
solves for the balance of the target beside the source that results, and withholds a unit. The unit
added on the one side need not make up for the unit withheld on the other, and the conversion can take
it back together with more, so that the input can buy less than was asked for, or nothing.

How much less depends on the level of the curve that the input misses.

The fee is not among the reasons. What is wanted is grossed up for it by a quotient that is rounded
down, and the fee on that output, rounded down too, leaves exactly what is wanted.
-/

namespace StablePool

open Checked (RefusesOnly)

/-- An amount that must leave the curve would be negative. -/
def Error.IsNegativeOutput : Error → Prop
  | .negativeOutput _ => True
  | _ => False

namespace Pool

/-- The price-scaled amounts that a reverse quote passes through. -/
structure ReverseCourse where
  pair : Pair
  /-- What is wanted of the target. -/
  net : Amount
  /-- What has to be taken from the curve for that. -/
  gross : Amount
  /-- The balance of the target that this leaves. -/
  y : Amount
  /-- The balance of the source that keeps the invariant. -/
  x : Amount

/-- How each amount of a reverse quote follows from the ones before it, up to the input `dx`. -/
structure ReverseCourse.LeadsTo (r : ReverseCourse) (p : Pool) (i j : Nat) (amountOut dx : Amount) :
    Prop where
  pair_isOf : r.pair.IsOf p i j
  val_net : r.net.val = r.pair.target.scale.scaledUnits amountOut.val
  fee_lt : p.terms.fee.numerator.val < FeeRate.denominator
  val_gross : r.gross.val = p.terms.fee.grossFor r.net.val
  y_add : r.y.val + r.gross.val = r.pair.y.val
  solved : (Curve.outputBalance j i r.y r.pair.xp r.pair.d p.terms.amplification
    p.terms.maxIterations).result = .ok r.x
  x_le : r.pair.x.val ≤ r.x.val
  val_dx : dx.val = r.pair.source.scale.nativeUnits (r.x.val - r.pair.x.val + 1)

/-- Grossing up succeeds unless the fee takes everything or the quotient does not fit. -/
theorem grossOutput_eq_ok_iff {fee : FeeRate} {net gross : Amount} :
    grossOutput fee net = .ok gross ↔
      fee.numerator.val < FeeRate.denominator ∧ gross.val = fee.grossFor net.val := by
  simp only [grossOutput, Checked.bind_eq_ok_iff, ensure_eq_ok_iff, Word.fit_eq_ok_iff,
    exists_const, Nat.sub_ne_zero_iff_lt, FeeRate.grossFor]

/-- A reverse quote that succeeds has a course. -/
theorem exists_course_of_quoteReverseSwap_eq_ok {p : Pool} {i j : Nat} {amountOut dx : Amount}
    (h : (p.quoteReverseSwap i j amountOut).result = .ok dx) :
    ∃ r : ReverseCourse, r.LeadsTo p i j amountOut dx := by
  simp only [quoteReverseSwap, Logged.result_bind, Logged.result_lift, Checked.bind_eq_ok_iff,
    PriceScale.toScaled_eq_ok_iff, PriceScale.toNative_eq_ok_iff, Word.sub_eq_ok_iff,
    Word.minus_eq_ok_iff, Word.fit_eq_ok_iff] at h
  obtain ⟨pair, hpair, net, hnet, gross, hgross, y, hy, x, hx, difference, hdifference, units,
    hunits, hdx⟩ := h
  obtain ⟨hfee, hgross⟩ := grossOutput_eq_ok_iff.1 hgross
  refine ⟨⟨pair, net, gross, y, x⟩, pair_eq_ok hpair, hnet, hfee, hgross, hy, hx, ?_, ?_⟩
  · change pair.x.val ≤ x.val
    omega
  · change dx.val = pair.source.scale.nativeUnits (x.val - pair.x.val + 1)
    rw [hdx, hunits, show x.val - pair.x.val = difference.val by omega]
    rfl

variable {p : Pool} {i j : Nat}

/-- The kind of every refusal but that of a negative output covers all refusals of the solvers. -/
theorem coversSolve_not_isNegativeOutput (count : Nat) :
    Error.CoversSolve (¬ ·.IsNegativeOutput) count where
  arithmetic cause h := by cases cause <;> first | exact h.elim | exact not_false
  rule _ := not_false
  outside _ _ := not_false
  identical _ := not_false
  gaveUp _ _ := not_false

/-- An exchange whose output would be negative has solved for a balance that is not below the balance
of the target. -/
theorem exists_solve_of_quoteSwap_eq_negativeOutput {dx : Amount} {step : String}
    (h : (p.quoteSwap i j dx).result = .error (.negativeOutput step)) :
    ∃ (pair : Pair) (x y : Amount), pair.IsOf p i j ∧
      x.val = pair.x.val + pair.source.scale.scaledUnits dx.val ∧
      (Curve.outputBalance i j x pair.xp pair.d p.terms.amplification
        p.terms.maxIterations).result = .ok y ∧ pair.y.val ≤ y.val := by
  by_contra hnone
  push Not at hnone
  have hrefuses : RefusesOnly (¬ ·.IsNegativeOutput) (p.quoteSwap i j dx).result := by
    have hkind := coversSolve_not_isNegativeOutput p.assetCount
    simp only [quoteSwap, Logged.result_bind, Logged.result_lift, Logged.result_pure]
    refine (hkind.refusesOnly_pair i j).bind fun pair hpair => ?_
    refine RefusesOnly.bind (Word.refusesOnly_mulDiv not_false not_false) fun paid hpaid => ?_
    refine RefusesOnly.bind (Word.refusesOnly_add not_false) fun x hx => ?_
    refine (hkind.refusesOnly_solve_of_pair hpair i j x).bind fun y hy => ?_
    have hx : x.val = pair.x.val + pair.source.scale.scaledUnits dx.val := by
      rw [Word.add_eq_ok_iff.1 hx, PriceScale.toScaled_eq_ok_iff.1 hpaid]
      rfl
    have hlt : y.val < pair.y.val := hnone pair x y (pair_eq_ok hpair) hx hy
    refine RefusesOnly.bind (Word.refusesOnly_minus_of_le (Nat.le_of_lt hlt))
      fun difference hdifference => ?_
    have hdifference := Word.minus_eq_ok_iff.1 hdifference
    have hone : (1 : Amount).val ≤ difference.val := by
      rw [Word.val_one]
      omega
    refine RefusesOnly.bind (Word.refusesOnly_minus_of_le hone) fun gross _ => ?_
    refine RefusesOnly.bind (Word.refusesOnly_fit not_false) fun fee _ => ?_
    refine RefusesOnly.bind (Word.refusesOnly_add not_false) fun kept _ => ?_
    refine RefusesOnly.bind (Word.refusesOnly_mulDiv not_false not_false) fun amountOut _ => ?_
    refine RefusesOnly.bind (Word.refusesOnly_mulDiv not_false not_false) fun nativeFee _ => ?_
    refine RefusesOnly.bind (Word.refusesOnly_mulDiv not_false not_false) fun balanceIn _ => ?_
    refine RefusesOnly.bind (Word.refusesOnly_mulDiv not_false not_false) fun balanceOut _ => ?_
    exact Checked.refusesOnly_pure _
  exact hrefuses _ h trivial

/-- What an exchange yields, if it solves for at most `t`. -/
theorem le_amountOut_of_solve_le {pair : Pair} (hpair : pair.IsOf p i j) {dx : Amount} {t : Nat}
    (hsolve : ∀ x y : Amount, x.val = pair.x.val + pair.source.scale.scaledUnits dx.val →
      (Curve.outputBalance i j x pair.xp pair.d p.terms.amplification
        p.terms.maxIterations).result = .ok y → y.val ≤ t)
    {q : SwapQuote} (hq : (p.quoteSwap i j dx).result = .ok q) :
    pair.target.scale.nativeUnits (p.terms.fee.net (pair.y.val - t - 1)) ≤ q.amountOut.val := by
  obtain ⟨s, hs⟩ := exists_course_of_quoteSwap_eq_ok hq
  obtain rfl := hs.pair_isOf.eq hpair
  have hy := hsolve s.x s.y (hs.val_paid ▸ hs.val_x) hs.solved
  have hgross := hs.gross_add
  rw [hs.val_amountOut, hs.gross_sub_fee]
  exact PriceScale.nativeUnits_mono _ (p.terms.fee_isValid.net_mono (by omega))

/-- An exchange of `dx` yields what the course of a reverse quote asks for, but for so many
price-scaled units, and is not refused for a negative output unless nothing else is asked for. -/
structure ReverseCourse.BuysAllBut (r : ReverseCourse) (p : Pool) (i j : Nat) (dx : Amount)
    (short : Nat) : Prop where
  not_negative : short ≤ r.gross.val → ∀ step,
    (p.quoteSwap i j dx).result ≠ .error (.negativeOutput step)
  le_amountOut : ∀ q, (p.quoteSwap i j dx).result = .ok q →
    r.pair.target.scale.nativeUnits (r.net.val - short) ≤ q.amountOut.val

/-- The balances beside which an exchange solves for the target, once the source is raised to `x`. -/
def ReverseCourse.besideRaised (r : ReverseCourse) (i j : Nat) (x : Amount) : List Amount :=
  (r.pair.xp.set i x).eraseIdx j

/-- The linear term of the quadratic beside the raised source. -/
def ReverseCourse.forwardLinear (r : ReverseCourse) (p : Pool) (i j : Nat) (x : Amount) : Nat :=
  Curve.linearTerm (r.besideRaised i j x) r.pair.d.val
    (p.assetCount * p.terms.amplification.coefficient.val)

/-- The constant term of the quadratic beside the raised source. -/
def ReverseCourse.forwardConstant (r : ReverseCourse) (p : Pool) (i j : Nat) (x : Amount) : Nat :=
  Curve.constantTerm (r.besideRaised i j x) p.assetCount r.pair.d.val
    (p.assetCount * p.terms.amplification.coefficient.val)

/-- What the level of the balance that the target is to have misses beside the raised source: what the
quadratic of the source falls from above its root to the raised source, and what its constant term
stands for less. -/
def ReverseCourse.missing (r : ReverseCourse) (p : Pool) (i j : Nat) (x : Amount) : Nat :=
  let ann := p.assetCount * p.terms.amplification.coefficient.val
  let fixed := (r.pair.xp.set j r.y).eraseIdx i
  Curve.missingLevel (Curve.linearTerm fixed r.pair.d.val ann)
    (Curve.constantTerm fixed p.assetCount r.pair.d.val ann) (r.forwardConstant p i j x)
    r.pair.d.val (r.x.val + 1) x.val r.y.val

variable {r : ReverseCourse} {amountOut dx : Amount}

namespace ReverseCourse.LeadsTo

/-- A reverse quote has only one course. -/
theorem eq {r' : ReverseCourse} (h : r.LeadsTo p i j amountOut dx)
    (h' : r'.LeadsTo p i j amountOut dx) : r = r' := by
  obtain ⟨pair, net, gross, y, x⟩ := r
  obtain ⟨pair', net', gross', y', x'⟩ := r'
  obtain rfl : pair = pair' := h.pair_isOf.eq h'.pair_isOf
  obtain rfl : net = net' := Word.ext (h.val_net.trans h'.val_net.symm)
  obtain rfl : gross = gross' := Word.ext (h.val_gross.trans h'.val_gross.symm)
  obtain rfl : y = y' := Word.ext (Nat.add_right_cancel (h.y_add.trans h'.y_add.symm))
  obtain rfl : x = x' := Except.ok.inj (h.solved.symm.trans h'.solved)
  rfl

/-- The balance that the target is to have is positive. -/
theorem y_pos (h : r.LeadsTo p i j amountOut dx) : 0 < r.y.val := by
  have hfixed := Curve.pos_of_freeBalance_eq_ok (Curve.outputBalance_eq_ok h.solved)
  refine hfixed r.y (List.mem_eraseIdx_iff_getElem?.2 ⟨j, h.pair_isOf.ne.symm, ?_⟩)
  obtain ⟨hj, -⟩ := List.getElem?_eq_some_iff.1 h.pair_isOf.y_eq
  exact List.getElem?_set_self hj

/-- An exchange raises the source by at most a unit more than was solved for. -/
theorem raised_le (h : r.LeadsTo p i j amountOut dx) {x : Amount}
    (hx : x.val = r.pair.x.val + r.pair.source.scale.scaledUnits dx.val) :
    x.val ≤ r.x.val + 1 := by
  have hback := r.pair.source.scale.scaledUnits_nativeUnits_le (r.x.val - r.pair.x.val + 1)
  have hle := h.x_le
  rw [← h.val_dx] at hback
  omega

/-- If an exchange solves for at most so many units more than the target is to have, less one, it buys
all but so many units of what was asked for. -/
theorem buysAllBut_of_solve_le (h : r.LeadsTo p i j amountOut dx) {short : Nat}
    (hsolve : ∀ x y : Amount, x.val = r.pair.x.val + r.pair.source.scale.scaledUnits dx.val →
      (Curve.outputBalance i j x r.pair.xp r.pair.d p.terms.amplification
        p.terms.maxIterations).result = .ok y → y.val ≤ r.y.val + short - 1) :
    r.BuysAllBut p i j dx short where
  not_negative hshort step hrefused := by
    obtain ⟨pair, x, y, hpair, hx, hy, hle⟩ := exists_solve_of_quoteSwap_eq_negativeOutput hrefused
    obtain rfl := hpair.eq h.pair_isOf
    have hsolved := hsolve x y hx hy
    have hypos := h.y_pos
    have hyadd := h.y_add
    omega
  le_amountOut q hq := by
    refine Nat.le_trans (PriceScale.nativeUnits_mono _ ?_)
      (le_amountOut_of_solve_le h.pair_isOf hsolve hq)
    have hypos := h.y_pos
    have hyadd := h.y_add
    calc r.net.val - short = p.terms.fee.net r.gross.val - short := by
          rw [h.val_gross, FeeRate.net_grossFor h.fee_lt]
      _ ≤ p.terms.fee.net (r.gross.val - short) :=
          Nat.sub_le_of_le_add (FeeRate.net_le_net_sub_add _ _)
      _ ≤ p.terms.fee.net (r.pair.y.val - (r.y.val + short - 1) - 1) :=
          p.terms.fee_isValid.net_mono (by omega)

/-- What an exchange solves for beside the raised source is at most any number beyond the root. -/
theorem buysAllBut_of_beyondRoot (h : r.LeadsTo p i j amountOut dx) {x : Amount} {short : Nat}
    (hx : x.val = r.pair.x.val + r.pair.source.scale.scaledUnits dx.val)
    (hbeyond : Curve.BeyondRoot (r.forwardLinear p i j x) (r.forwardConstant p i j x) r.pair.d.val
      (r.y.val + short - 1)) : r.BuysAllBut p i j dx short := by
  refine h.buysAllBut_of_solve_le fun x' y hx' hy => ?_
  obtain rfl : x = x' := Word.ext (hx.trans hx'.symm)
  have hbracket := Curve.bracketsRoot_of_freeBalance (Curve.outputBalance_eq_ok hy)
  rw [h.pair_isOf.length_xp] at hbracket
  exact hbracket.le_of_beyondRoot hbeyond

/-- An exchange does not solve for less than a number that is not beyond the root, so that it takes less
from the curve than was to be taken. -/
theorem amountOut_le_of_not_beyondRoot (h : r.LeadsTo p i j amountOut dx) {x : Amount} {short : Nat}
    (hx : x.val = r.pair.x.val + r.pair.source.scale.scaledUnits dx.val)
    (hnot : ¬ Curve.BeyondRoot (r.forwardLinear p i j x) (r.forwardConstant p i j x) r.pair.d.val
      (r.y.val + short)) {q : SwapQuote} (hq : (p.quoteSwap i j dx).result = .ok q) :
    short < r.gross.val ∧ q.amountOut.val ≤
      r.pair.target.scale.nativeUnits (p.terms.fee.net (r.gross.val - (short + 1))) := by
  obtain ⟨s, hs⟩ := exists_course_of_quoteSwap_eq_ok hq
  have hpair := hs.pair_isOf.eq h.pair_isOf
  have hraised : s.x = x := Word.ext (by rw [hs.val_x, hs.val_paid, hpair, hx])
  have hbracket := Curve.bracketsRoot_of_freeBalance (Curve.outputBalance_eq_ok hs.solved)
  rw [hs.pair_isOf.length_xp, hraised, hpair] at hbracket
  have hle : r.y.val + short ≤ s.y.val := hbracket.le_of_not_beyondRoot hnot
  have hgross := hs.gross_add
  have hyadd := h.y_add
  rw [hpair] at hgross
  refine ⟨by omega, ?_⟩
  rw [hs.val_amountOut, hs.gross_sub_fee, hpair]
  exact PriceScale.nativeUnits_mono _ (p.terms.fee_isValid.net_mono (by omega))

/-- A rise over so many units that makes up for the missing level leads beyond the root. -/
theorem beyondRoot_of_missing_le (h : r.LeadsTo p i j amountOut dx) {x : Amount} {k : Nat}
    (hx : x.val = r.pair.x.val + r.pair.source.scale.scaledUnits dx.val)
    (hrise : r.missing p i j x ≤
      x.val * (k * (2 * r.y.val + k + r.forwardLinear p i j x - r.pair.d.val))) :
    Curve.BeyondRoot (r.forwardLinear p i j x) (r.forwardConstant p i j x) r.pair.d.val
      (r.y.val + k) := by
  have hbracket := Curve.bracketsRoot_of_freeBalance (Curve.outputBalance_eq_ok h.solved)
  rw [h.pair_isOf.length_xp] at hbracket
  have hlinear := Curve.linearTerm_add h.pair_isOf.ne h.pair_isOf.x_eq h.pair_isOf.y_eq x r.y
    r.pair.d.val (p.assetCount * p.terms.amplification.coefficient.val)
  exact Curve.beyondRoot_add_of_missing
    (Curve.BeyondRoot.lt_add_missingLevel hbracket.lt_succ (h.raised_le hx) h.y_pos hlinear) hrise

end ReverseCourse.LeadsTo

/-- What the input of a reverse quote buys. If the balance that the target is to have, and so many
units more, less one, is beyond the root of the quadratic beside the raised source, an exchange of the
input pays all that was asked for but those units, and it is not refused for a negative output. That is
so for one unit more than a number of units over which the quadratic rises by the missing level. If
that balance and so many units are not beyond the root, the exchange takes more than so many units less
from the curve than what was asked for takes. -/
theorem reverse_quote_buys_all_but (h : (p.quoteReverseSwap i j amountOut).result = .ok dx) :
    ∃ r : ReverseCourse, r.LeadsTo p i j amountOut dx ∧
      ∀ x : Amount, x.val = r.pair.x.val + r.pair.source.scale.scaledUnits dx.val →
        (∀ short, Curve.BeyondRoot (r.forwardLinear p i j x) (r.forwardConstant p i j x)
            r.pair.d.val (r.y.val + short - 1) →
          r.BuysAllBut p i j dx short) ∧
        (∀ k, r.missing p i j x ≤
            x.val * (k * (2 * r.y.val + k + r.forwardLinear p i j x - r.pair.d.val)) →
          r.BuysAllBut p i j dx (k + 1)) ∧
        ∀ short, ¬ Curve.BeyondRoot (r.forwardLinear p i j x) (r.forwardConstant p i j x)
            r.pair.d.val (r.y.val + short) →
          ∀ q, (p.quoteSwap i j dx).result = .ok q → short < r.gross.val ∧ q.amountOut.val ≤
            r.pair.target.scale.nativeUnits (p.terms.fee.net (r.gross.val - (short + 1))) := by
  obtain ⟨r, hr⟩ := exists_course_of_quoteReverseSwap_eq_ok h
  refine ⟨r, hr, fun x hx => ⟨fun short => hr.buysAllBut_of_beyondRoot hx, fun k hrise => ?_,
    fun short hnot q hq => hr.amountOut_le_of_not_beyondRoot hx hnot hq⟩⟩
  exact hr.buysAllBut_of_beyondRoot hx (hr.beyondRoot_of_missing_le hx hrise)

/-- The input that is quoted for 2562 units of an abundant asset buys 2559 of them: the balance that the
target is to have is beyond the root only with three units more. -/
theorem reverse_quote_buys_all_but_three :
    let p : Pool := {
      terms := {
        amplification := ⟨.lit 1, by decide⟩
        fee := ⟨.lit 0⟩
        adminFee := ⟨.lit 0⟩
        maxIterations := Curve.defaultBound
        fee_isValid := by decide
        adminFee_isValid := by decide }
      assets := [⟨.lit 24, 0, .one⟩, ⟨.lit 8720, 0, .one⟩]
      tokenSupply := 0 }
    let r : ReverseCourse := {
      pair := ⟨⟨.lit 24, 0, .one⟩, ⟨.lit 8720, 0, .one⟩, p.balances, .lit 2332, .lit 24, .lit 8720⟩
      net := .lit 2562
      gross := .lit 2562
      y := .lit 6158
      x := .lit 50 }
    (p.quoteReverseSwap 0 1 (.lit 2562)).result = .ok (.lit 27) ∧
      r.LeadsTo p 0 1 (.lit 2562) (.lit 27) ∧ r.BuysAllBut p 0 1 (.lit 27) 4 ∧
      ∀ q, (p.quoteSwap 0 1 (.lit 27)).result = .ok q → q.amountOut.val ≤ 2559 := by
  intro p r
  have hquote : (p.quoteReverseSwap 0 1 (.lit 2562)).result = .ok (.lit 27) := by decide +kernel
  have hpair : r.pair.IsOf p 0 1 := ⟨rfl, rfl, by decide, by decide, by decide +kernel, rfl, rfl⟩
  have hcourse : r.LeadsTo p 0 1 (.lit 2562) (.lit 27) :=
    ⟨hpair, by decide, by decide, by decide, by decide, by decide +kernel, by decide, by decide⟩
  obtain ⟨r', hr, hbuys⟩ := reverse_quote_buys_all_but hquote
  obtain rfl : r' = r := hr.eq hcourse
  obtain ⟨hshort, -, hmost⟩ := hbuys (.lit 51) (by decide)
  refine ⟨hquote, hcourse, hshort 4 (by decide), fun q hq => ?_⟩
  exact Nat.le_trans (hmost 2 (by decide) q hq).2 (by decide)

/-- The reverse quote is not sufficient. The input that is quoted for 2562 units of an abundant asset buys
2559 of them; and of an asset with six decimals no native unit is quoted for some of another asset, since
the conversion takes back the unit that was added, whereas an exchange of nothing is refused. -/
theorem reverse_quote_insufficient :
    let config (a : Amplification) (fee : FeeRate) (balances : List Amount) (scales : List PriceScale) :
        Config := {
      assetCount := .lit 2
      amplification := a
      fee
      adminFee := ⟨.lit 5000⟩
      initial := .explicit balances
      priceScales := scales
      tokenSupply := 0
      maxIterations := Config.defaultMaxIterations }
    let six : PriceScale := ⟨.lit (10 ^ 30), by decide⟩
    let uneven : Pool := {
      terms := {
        amplification := ⟨.lit 1, by decide⟩
        fee := ⟨.lit 0⟩
        adminFee := ⟨.lit 5000⟩
        maxIterations := Curve.defaultBound
        fee_isValid := by decide
        adminFee_isValid := by decide }
      assets := [⟨.lit 24, 0, .one⟩, ⟨.lit 8720, 0, .one⟩]
      tokenSupply := 0 }
    let even : Pool := {
      terms := {
        amplification := ⟨.lit 200, by decide⟩
        fee := ⟨.lit 4⟩
        adminFee := ⟨.lit 5000⟩
        maxIterations := Curve.defaultBound
        fee_isValid := by decide
        adminFee_isValid := by decide }
      assets := [⟨.lit (10 ^ 6), 0, six⟩, ⟨.lit (10 ^ 18), 0, .one⟩]
      tokenSupply := 0 }
    let q : SwapQuote := ⟨.lit 2559, 0, .lit 51, .lit 6160⟩
    ofConfig (config uneven.terms.amplification uneven.terms.fee uneven.balances uneven.scales) =
        .ok uneven ∧
      (uneven.quoteReverseSwap 0 1 (.lit 2562)).result = .ok (.lit 27) ∧
      (uneven.quoteSwap 0 1 (.lit 27)).result = .ok q ∧ q.amountOut < .lit 2562 ∧
      ofConfig (config even.terms.amplification even.terms.fee even.balances even.scales) = .ok even ∧
      (even.quoteReverseSwap 0 1 (.lit (5 * 10 ^ 11))).result = .ok 0 ∧
      (even.quoteSwap 0 1 0).result = .error (.negativeOutput "swap output") := by
  intro config six uneven even q
  refine ⟨rfl, ?_, ?_, by decide, rfl, ?_, ?_⟩
  · decide +kernel
  · decide +kernel
  · decide +kernel
  · decide +kernel

/-- Grossing up is exact. If the fee does not take everything and the quotient fits, the output that is
grossed up for it can be charged the fee, and is left with what was wanted. So what a reverse quote
removes from the balance of the target nets the amount that was asked for, in price-scaled units, and an
exchange that takes as much from the curve withholds the same fee and pays for that amount. -/
theorem gross_output_nets_exactly :
    (∀ (fee : FeeRate) (wanted : Amount), fee.numerator.val < FeeRate.denominator →
      wanted.val * FeeRate.denominator / (FeeRate.denominator - fee.numerator.val) < 2 ^ 128 →
      ∃ gross charged : Amount, grossOutput fee wanted = .ok gross ∧
        gross.val =
          wanted.val * FeeRate.denominator / (FeeRate.denominator - fee.numerator.val) ∧
        fee.apply gross = .ok charged ∧ charged ≤ gross ∧ gross.monus charged = wanted) ∧
    ∀ (p : Pool) (i j : Nat) (amountOut dx : Amount),
      (p.quoteReverseSwap i j amountOut).result = .ok dx →
      ∃ (r : ReverseCourse) (charged : Amount), r.LeadsTo p i j amountOut dx ∧
        p.terms.fee.apply r.gross = .ok charged ∧ charged ≤ r.gross ∧
        r.pair.target.scale.toScaled amountOut = .ok (r.gross.monus charged) ∧
        ∀ (s : SwapCourse) (paid : Amount) (q : SwapQuote), s.LeadsTo p i j paid q →
          s.gross = r.gross → s.fee = charged ∧
            r.pair.target.scale.toNative (r.gross.monus charged) = .ok q.amountOut := by
  constructor
  · intro fee wanted hfee hfits
    let gross : Amount := ⟨fee.grossFor wanted.val, hfits⟩
    have hgross : gross.val = fee.grossFor wanted.val := rfl
    obtain ⟨charged, happly, hle, hnet⟩ := FeeRate.exists_apply_grossFor hfee hgross
    exact ⟨gross, charged, grossOutput_eq_ok_iff.2 ⟨hfee, hgross⟩, rfl, happly, hle, hnet⟩
  · intro p i j amountOut dx hquote
    obtain ⟨r, hr⟩ := exists_course_of_quoteReverseSwap_eq_ok hquote
    obtain ⟨charged, happly, hle, hnet⟩ := FeeRate.exists_apply_grossFor hr.fee_lt hr.val_gross
    refine ⟨r, charged, hr, happly, hle, ?_, fun s paid q hs hgross => ?_⟩
    · rw [hnet]
      exact PriceScale.toScaled_eq_ok_iff.2 hr.val_net
    · have hcharged := FeeRate.apply_eq_ok_iff.1 happly
      obtain rfl : s.fee = charged := Word.ext (by rw [hs.val_fee, hgross, hcharged])
      refine ⟨rfl, PriceScale.toNative_eq_ok_iff.2 ?_⟩
      rw [hs.val_amountOut, hs.pair_isOf.eq hr.pair_isOf, hgross]
      rfl

/-- For 5000 units after a fee of thirty ten-thousandths 5015 units are removed, of which the fee takes
15. An exchange of the input that is quoted takes as many units from the curve and pays the 5000. -/
theorem gross_output_nets_five_thousand :
    let p : Pool := {
      terms := {
        amplification := ⟨.lit 100, by decide⟩
        fee := ⟨.lit 30⟩
        adminFee := ⟨.lit 0⟩
        maxIterations := Curve.defaultBound
        fee_isValid := by decide
        adminFee_isValid := by decide }
      assets := [⟨.lit 1000000, 0, .one⟩, ⟨.lit 2000000, 0, .one⟩]
      tokenSupply := 0 }
    let pair : Pair := {
      source := ⟨.lit 1000000, 0, .one⟩
      target := ⟨.lit 2000000, 0, .one⟩
      xp := p.balances
      d := .lit 2998146
      x := .lit 1000000
      y := .lit 2000000 }
    let r : ReverseCourse := ⟨pair, .lit 5000, .lit 5015, .lit 1994985, .lit 1004973⟩
    let s : SwapCourse :=
      ⟨pair, .lit 4974, .lit 1004974, .lit 1994984, .lit 5015, .lit 15, .lit 1994999⟩
    let q : SwapQuote := ⟨.lit 5000, .lit 15, .lit 1004974, .lit 1994999⟩
    (∃ gross charged : Amount, grossOutput p.terms.fee (.lit 5000) = .ok gross ∧
        p.terms.fee.apply gross = .ok charged ∧ gross.monus charged = .lit 5000) ∧
      (p.quoteReverseSwap 0 1 (.lit 5000)).result = .ok (.lit 4974) ∧
      r.LeadsTo p 0 1 (.lit 5000) (.lit 4974) ∧ s.LeadsTo p 0 1 (.lit 4974) q ∧
      ∃ charged, p.terms.fee.apply r.gross = .ok charged ∧ s.fee = charged ∧
        r.pair.target.scale.toNative (r.gross.monus charged) = .ok q.amountOut := by
  intro p pair r s q
  have hquote : (p.quoteReverseSwap 0 1 (.lit 5000)).result = .ok (.lit 4974) := by decide +kernel
  have hpair : pair.IsOf p 0 1 := ⟨rfl, rfl, by decide, by decide, by decide +kernel, rfl, rfl⟩
  have hcourse : r.LeadsTo p 0 1 (.lit 5000) (.lit 4974) :=
    ⟨hpair, by decide, by decide, by decide, by decide, by decide +kernel, by decide, by decide⟩
  have hswap : s.LeadsTo p 0 1 (.lit 4974) q :=
    ⟨hpair, by decide, by decide, by decide +kernel, by decide, by decide, by decide, by decide,
      by decide, by decide, by decide⟩
  obtain ⟨gross, charged, hgross, -, happly, -, hnet⟩ :=
    gross_output_nets_exactly.1 p.terms.fee (.lit 5000) (by decide) (by decide)
  obtain ⟨r', charged', hr, happly', -, -, hsame⟩ := gross_output_nets_exactly.2 p 0 1 _ _ hquote
  obtain rfl : r' = r := hr.eq hcourse
  exact ⟨⟨gross, charged, hgross, happly, hnet⟩, hquote, hcourse, hswap, charged', happly',
    hsame s (.lit 4974) q hswap rfl⟩

end Pool

end StablePool
