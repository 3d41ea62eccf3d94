import Mathlib.Data.Nat.Dist
import Mathlib.Tactic.Ring
import StablePool.Proofs.Fees
import StablePool.Proofs.Pool.Commitment

/-!
# Deviation fees stay below half of the deviation

Uneven operations are charged at a rate that lies between a quarter and half of the trade fee, and that
only falls when there are more assets. Half of a valid trade fee charges at most half of an amount, and the
administrator takes a part of that. So for each asset the tentative balance, the balance that the pool goes
on with and the balance on which the tokens are counted stand in this order, and the last lies no further
from the first than half of the deviation.

What the operation does to the tokens is not stated here.
-/

namespace StablePool

namespace FeeRate

/-- The numerator of the rate on uneven operations among `count` assets, for a trade fee with a given
numerator. -/
def imbalanceShare (numerator count : ℕ) : ℕ := numerator * count / (4 * (count - 1))

section

variable {numerator count : ℕ}

/-- The share is at most half of the numerator. -/
theorem imbalanceShare_le_half (hcount : 2 ≤ count) : imbalanceShare numerator count ≤ numerator / 2 := by
  refine (Nat.le_div_iff_mul_le Nat.two_pos).2 ?_
  refine Nat.le_of_mul_le_mul_right ?_ (show 0 < 2 * (count - 1) by omega)
  calc imbalanceShare numerator count * 2 * (2 * (count - 1))
      = imbalanceShare numerator count * (4 * (count - 1)) := by ring
    _ ≤ numerator * count := Nat.div_mul_le_self _ _
    _ ≤ numerator * (2 * (count - 1)) := Nat.mul_le_mul_left _ (by omega)

/-- The share is at least a quarter of the numerator. -/
theorem quarter_le_imbalanceShare (hcount : 2 ≤ count) :
    numerator / 4 ≤ imbalanceShare numerator count := by
  refine (Nat.le_div_iff_mul_le (by omega)).2 ?_
  calc numerator / 4 * (4 * (count - 1)) = numerator / 4 * 4 * (count - 1) := by ring
    _ ≤ numerator * count := Nat.mul_le_mul (Nat.div_mul_le_self _ _) (Nat.sub_le _ _)

/-- With more assets the share does not grow. -/
theorem imbalanceShare_antitone {more : ℕ} (hcount : 2 ≤ count) (hle : count ≤ more) :
    imbalanceShare numerator more ≤ imbalanceShare numerator count := by
  have hcross : more * (count - 1) ≤ count * (more - 1) := by
    rw [Nat.mul_sub, Nat.mul_sub, Nat.mul_one, Nat.mul_one, Nat.mul_comm more]
    omega
  refine (Nat.le_div_iff_mul_le (by omega)).2 ?_
  refine Nat.le_of_mul_le_mul_right ?_ (show 0 < more - 1 by omega)
  calc imbalanceShare numerator more * (4 * (count - 1)) * (more - 1)
      = imbalanceShare numerator more * (4 * (more - 1)) * (count - 1) := by ring
    _ ≤ numerator * more * (count - 1) := Nat.mul_le_mul_right _ (Nat.div_mul_le_self _ _)
    _ = numerator * (more * (count - 1)) := Nat.mul_assoc _ _ _
    _ ≤ numerator * (count * (more - 1)) := Nat.mul_le_mul_left _ hcross
    _ = numerator * count * (more - 1) := (Nat.mul_assoc _ _ _).symm

end

variable {rate reduced : FeeRate} {count : ℕ}

/-- The rate on uneven operations has the share as its numerator. -/
theorem imbalanceRate_eq_ok (h : rate.imbalanceRate count = .ok reduced) :
    2 ≤ count ∧ reduced.numerator.val = imbalanceShare rate.numerator.val count := by
  simp only [imbalanceRate, Checked.bind_eq_ok_iff, ensure_eq_ok_iff, Word.fit_eq_ok_iff,
    Checked.pure_eq_ok_iff, exists_const] at h
  obtain ⟨hcount, scaled, hscaled, numerator, hnumerator, rfl⟩ := h
  rw [hscaled] at hnumerator
  exact ⟨hcount, hnumerator⟩

/-- A valid trade fee has a rate on uneven operations for every number of assets that a pool could have
in practice. -/
theorem IsValid.exists_imbalanceRate_eq_ok (h : rate.IsValid) (hcount : 2 ≤ count)
    (hlarge : count < 2 ^ 50) : ∃ reduced, rate.imbalanceRate count = .ok reduced := by
  have hvalid : rate.numerator.val ≤ 10000 := h
  have hscaled : rate.numerator.val * count < 2 ^ 64 :=
    calc rate.numerator.val * count ≤ 10000 * count := Nat.mul_le_mul_right _ hvalid
      _ < 2 ^ 64 := by omega
  have hshare : imbalanceShare rate.numerator.val count < 2 ^ 32 := by
    have hhalf : imbalanceShare rate.numerator.val count ≤ rate.numerator.val / 2 :=
      imbalanceShare_le_half hcount
    omega
  simp only [imbalanceRate, Checked.bind_eq_ok_iff, ensure_eq_ok_iff, Word.fit_eq_ok_iff,
    Checked.pure_eq_ok_iff, exists_const]
  exact ⟨⟨⟨_, hshare⟩⟩, hcount, ⟨_, hscaled⟩, rfl, ⟨_, hshare⟩, rfl, rfl⟩

/-- Half of a valid trade fee charges at most half of an amount. -/
theorem IsValid.two_mul_charge_le (h : rate.IsValid) (hreduced : rate.imbalanceRate count = .ok reduced)
    (amount : ℕ) : 2 * reduced.charge amount ≤ amount := by
  obtain ⟨hcount, hshare⟩ := imbalanceRate_eq_ok hreduced
  have hvalid : rate.numerator.val ≤ 10000 := h
  have hhalf : reduced.numerator.val ≤ 5000 := by
    have hle : imbalanceShare rate.numerator.val count ≤ rate.numerator.val / 2 :=
      imbalanceShare_le_half hcount
    omega
  have hcharge : reduced.charge amount * 10000 ≤ amount * reduced.numerator.val :=
    Nat.div_mul_le_self _ _
  have hle : amount * reduced.numerator.val ≤ amount * 5000 := Nat.mul_le_mul_left _ hhalf
  omega

end FeeRate

namespace Pool

/-- An asset that moves from `old` to `new`, while the invariant goes from `d0` to `d1`, is quoted with a
fee of at most half of its deviation, of which the administrator takes a part. -/
structure ChargedBelowHalf (d0 d1 old new : Amount) (e : AssetQuote) : Prop where
  d0_pos : 0 < d0.val
  adminFee_le_fee : e.charge.adminFee ≤ e.charge.fee
  two_mul_fee_le : 2 * e.charge.fee.val ≤ Nat.dist (d1.val * old.val / d0.val) new.val
  balance_add_adminFee : e.balance.val + e.charge.adminFee.val = new.val
  new_le_balance_add_fee : new.val ≤ e.balance.val + e.charge.fee.val

/-- Every asset is charged below half of its deviation by a quote that takes the invariant of the pool to
that of the balances `after`, if each balance `moves` by its amount. -/
structure ChargesBelowHalf (p : Pool) (moves : (old amount new : ℕ) → Prop) (amounts : List Amount)
    (q : LiquidityQuote) (d0 d1 : Amount) (after : List Amount) : Prop where
  invariant_eq : p.invariant.result = .ok d0
  after_eq : (p.invariantOf after).result = .ok d1
  length_amounts : amounts.length = p.assetCount
  length_after : after.length = p.assetCount
  length_entries : q.entries.length = p.assetCount
  charged : ∀ (k : ℕ) (asset : Asset) (amount new : Amount) (e : AssetQuote),
    p.assets[k]? = some asset → amounts[k]? = some amount → after[k]? = some new →
    q.entries[k]? = some e →
    moves asset.balance.val amount.val new.val ∧ ChargedBelowHalf d0 d1 asset.balance new e

variable {p : Pool} {s : LiquidityCourse} {entries : List AssetQuote}

/-- A course charges each tentative balance below half of its deviation. -/
theorem LiquidityCourse.LeadsTo.chargedBelowHalf (h : s.LeadsTo p entries) {k : ℕ} {asset : Asset}
    {new : Amount} {e : AssetQuote} (hasset : p.assets[k]? = some asset)
    (hnew : s.tentative[k]? = some new) (he : entries[k]? = some e) :
    ChargedBelowHalf s.d0 s.d1 asset.balance new e := by
  obtain ⟨net, e', -, he', ⟨hpos, rate, hrate, hfee⟩, hsplits⟩ :=
    h.exists_chargesDeviation hasset hnew
  obtain rfl : e' = e := Option.some.inj (he'.symm.trans he)
  have hadmin : e'.charge.adminFee.val ≤ e'.charge.fee.val :=
    hsplits.val_adminFee ▸ p.terms.adminFee_isValid.charge_le e'.charge.fee.val
  have hbalance := hsplits.balance_add
  refine ⟨hpos, hadmin, ?_, hbalance, by omega⟩
  rw [hfee]
  exact p.terms.fee_isValid.two_mul_charge_le hrate _

/-- A quoted course charges every asset below half of its deviation. -/
theorem LiquidityCourse.LeadsTo.chargesBelowHalf {q : LiquidityQuote} (h : s.LeadsTo p q.entries)
    {moves : (old amount new : ℕ) → Prop} {move : Amount → Amount → Checked Amount}
    (hmove : ∀ old amount new : Amount, move old amount = .ok new → moves old.val amount.val new.val)
    {amounts : List Amount} (hlength : amounts.length = p.assetCount)
    (htentative : (p.balances.zip amounts).mapM (fun (old, amount) => move old amount) =
      .ok s.tentative) : p.ChargesBelowHalf moves amounts q s.d0 s.d1 s.tentative := by
  have hafter := length_of_mapM_zip_balances hlength htentative
  refine ⟨h.invariant_eq, h.tentative_eq, hlength, hafter, h.length_entries hafter, ?_⟩
  intro k asset amount new e hasset hamount hnew he
  obtain ⟨new', hnew', hmoved⟩ := Checked.exists_getElem?_of_mapM_zip_eq_ok htentative
    (getElem?_balances hasset) hamount
  obtain rfl : new' = new := Option.some.inj (hnew'.symm.trans hnew)
  exact ⟨hmove _ _ _ hmoved, h.chargedBelowHalf hasset hnew he⟩

/-- Deviation fees stay below half of the deviation. A quoted deposit that is not the first, and a quoted
withdrawal of chosen amounts, charge for each asset at most half of the distance between the ideal balance
and the new one; the administrator takes a part of the fee, which is what the quoted balance lacks of the
new one. A valid trade fee has a rate on uneven operations between a quarter and half of it, which does
not grow with the number of assets. -/
theorem deviation_fees_below_half (p : Pool) (amounts : List Amount) (q : LiquidityQuote) :
    (p.tokenSupply ≠ 0 → (p.quoteDeposit amounts).result = .ok q → ∃ d0 d1 after,
      p.ChargesBelowHalf (fun old paid new => new = old + paid) amounts q d0 d1 after) ∧
    ((p.quoteWithdrawAmounts amounts).result = .ok q → ∃ d0 d1 after,
      p.ChargesBelowHalf (fun old taken new => new + taken = old) amounts q d0 d1 after) ∧
    ∀ (rate : FeeRate) (count : ℕ), rate.IsValid → 2 ≤ count → count < 2 ^ 50 →
      ∃ reduced, rate.imbalanceRate count = .ok reduced ∧
        rate.numerator.val / 4 ≤ reduced.numerator.val ∧
        reduced.numerator.val ≤ rate.numerator.val / 2 ∧
        ∀ more further, count ≤ more → rate.imbalanceRate more = .ok further →
          further.numerator ≤ reduced.numerator := by
  refine ⟨fun hsome hq => ?_, fun hq => ?_, fun rate count hvalid hcount hlarge => ?_⟩
  · obtain ⟨hlength, after, hafter, ⟨hzero, -, -⟩ | ⟨-, s, rfl, hleads, -⟩⟩ := quoteDeposit_eq_ok hq
    · exact absurd hzero hsome
    · exact ⟨_, _, _, hleads.chargesBelowHalf (fun _ _ _ => Word.add_eq_ok_iff.1) hlength hafter⟩
  · obtain ⟨hlength, s, hafter, hleads, -⟩ := quoteWithdrawAmounts_eq_ok hq
    exact ⟨_, _, _, hleads.chargesBelowHalf (fun _ _ _ => Word.sub_eq_ok_iff.1) hlength hafter⟩
  · obtain ⟨reduced, hreduced⟩ := hvalid.exists_imbalanceRate_eq_ok hcount hlarge
    obtain ⟨-, hshare⟩ := FeeRate.imbalanceRate_eq_ok hreduced
    refine ⟨reduced, hreduced, ?_, ?_, fun more further hle hfurther => ?_⟩
    · exact hshare ▸ FeeRate.quarter_le_imbalanceShare hcount
    · exact hshare ▸ FeeRate.imbalanceShare_le_half hcount
    · rw [Word.le_iff, hshare, (FeeRate.imbalanceRate_eq_ok hfurther).2]
      exact FeeRate.imbalanceShare_antitone hcount hle

/-- A pool with the full trade fee, of which the administrator takes half: an uneven deposit and an uneven
withdrawal are charged just below half of each deviation. -/
theorem deviation_fees_below_half_full_fee :
    let p : Pool := {
      terms := {
        amplification := ⟨.lit 200, by decide⟩
        fee := .full
        adminFee := ⟨.lit 5000⟩
        maxIterations := Curve.defaultBound
        fee_isValid := by decide
        adminFee_isValid := by decide }
      assets := [⟨.lit 1000000, 0, .one⟩, ⟨.lit 3000000, .lit 7, .one⟩]
      tokenSupply := .lit 4000000 }
    let paid : List Amount := [.lit 500000, .lit 100000]
    let taken : List Amount := [.lit 1000, .lit 500000]
    let deposit : LiquidityQuote := ⟨.lit 251216,
      [⟨.lit 1412640, ⟨.lit 174721, .lit 87360⟩⟩, ⟨.lit 3012082, ⟨.lit 175837, .lit 87918⟩⟩]⟩
    let withdrawal : LiquidityQuote := ⟨.lit 624756,
      [⟨.lit 967996, ⟨.lit 62008, .lit 31004⟩⟩, ⟨.lit 2468763, ⟨.lit 62475, .lit 31237⟩⟩]⟩
    p.tokenSupply ≠ 0 ∧ (p.quoteDeposit paid).result = .ok deposit ∧
      (∃ d0 d1 after, p.ChargesBelowHalf (fun old paid new => new = old + paid) paid deposit d0 d1 after) ∧
      (p.quoteWithdrawAmounts taken).result = .ok withdrawal ∧
      (∃ d0 d1 after,
        p.ChargesBelowHalf (fun old taken new => new + taken = old) taken withdrawal d0 d1 after) ∧
      ∃ reduced, p.terms.fee.imbalanceRate 2 = .ok reduced ∧
        2500 ≤ reduced.numerator.val ∧ reduced.numerator.val ≤ 5000 := by
  intro p paid taken deposit withdrawal
  have hsome : p.tokenSupply ≠ 0 := by decide
  have hdeposit : (p.quoteDeposit paid).result = .ok deposit := by decide +kernel
  have hwithdrawal : (p.quoteWithdrawAmounts taken).result = .ok withdrawal := by decide +kernel
  obtain ⟨hpaid, -, hrate⟩ := deviation_fees_below_half p paid deposit
  obtain ⟨-, htaken, -⟩ := deviation_fees_below_half p taken withdrawal
  obtain ⟨reduced, hreduced, hlow, hhigh, -⟩ :=
    hrate p.terms.fee 2 p.terms.fee_isValid (by decide) (by decide)
  have hlow : 2500 ≤ reduced.numerator.val := Nat.le_trans (by decide) hlow
  have hhigh : reduced.numerator.val ≤ 5000 := Nat.le_trans hhigh (by decide)
  exact ⟨hsome, hdeposit, hpaid hsome hdeposit, hwithdrawal, htaken hwithdrawal, reduced, hreduced,
    hlow, hhigh⟩

end Pool

end StablePool
