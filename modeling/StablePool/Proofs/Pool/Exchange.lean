import StablePool.Pool.Swap
import StablePool.Proofs.Fees
import StablePool.Proofs.Pool.Units

/-!
# The course of an exchange

A quote that succeeds has passed through a fixed sequence of amounts in price-scaled units, each of
which the ones before it determine. The course names them, so that a statement about exchanges can
be read off it without going through the steps of the quote again.

When a quote is refused is not stated here.
-/

namespace StablePool.Pool

/-- Each price scale is that of an asset. -/
theorem exists_asset_of_getElem?_scales {p : Pool} {k : Nat} {scale : PriceScale}
    (h : p.scales[k]? = some scale) : ∃ asset, p.assets[k]? = some asset ∧ asset.scale = scale := by
  rw [scales, List.getElem?_map] at h
  exact Option.map_eq_some_iff.1 h

/-- Each balance is scaled with the price scale of its asset. -/
theorem getElem?_of_scaledOf_eq_ok {p : Pool} {balances xp : List Amount}
    (h : p.scaledOf balances = .ok xp) {k : Nat} {asset : Asset} {balance : Amount}
    (hk : p.assets[k]? = some asset) (hbalance : balances[k]? = some balance) :
    ∃ x, xp[k]? = some x ∧ x.val = asset.scale.scaledUnits balance.val := by
  obtain ⟨x, hx, hscaled⟩ :=
    Checked.exists_getElem?_of_mapM_zip_eq_ok h hbalance (getElem?_scales hk)
  exact ⟨x, hx, PriceScale.toScaled_eq_ok_iff.1 hscaled⟩

/-- The price-scaled balances of a pool are those of its assets. -/
theorem getElem?_of_scaled_eq_ok {p : Pool} {xp : List Amount} (h : p.scaled = .ok xp) {k : Nat}
    {asset : Asset} (hk : p.assets[k]? = some asset) :
    ∃ x, xp[k]? = some x ∧ x.val = asset.scale.scaledUnits asset.balance.val :=
  getElem?_of_scaledOf_eq_ok h hk (getElem?_balances hk)

/-- What two assets that were looked up have to do with the pool. -/
structure Pair.IsOf (pair : Pair) (p : Pool) (i j : Nat) : Prop where
  source_eq : p.assets[i]? = some pair.source
  target_eq : p.assets[j]? = some pair.target
  ne : i ≠ j
  scaled_eq : p.scaled = .ok pair.xp
  invariant_eq : (p.curveInvariant pair.xp).result = .ok pair.d
  x_eq : pair.xp[i]? = some pair.x
  y_eq : pair.xp[j]? = some pair.y

/-- The balance of the source that was looked up is its balance in price-scaled units. -/
theorem Pair.IsOf.val_x {pair : Pair} {p : Pool} {i j : Nat} (h : pair.IsOf p i j) :
    pair.x.val = pair.source.scale.scaledUnits pair.source.balance.val := by
  obtain ⟨x, hx, hval⟩ := getElem?_of_scaled_eq_ok h.scaled_eq h.source_eq
  obtain rfl : pair.x = x := Option.some.inj (h.x_eq.symm.trans hx)
  exact hval

/-- The balance of the target that was looked up is its balance in price-scaled units. -/
theorem Pair.IsOf.val_y {pair : Pair} {p : Pool} {i j : Nat} (h : pair.IsOf p i j) :
    pair.y.val = pair.target.scale.scaledUnits pair.target.balance.val := by
  obtain ⟨y, hy, hval⟩ := getElem?_of_scaled_eq_ok h.scaled_eq h.target_eq
  obtain rfl : pair.y = y := Option.some.inj (h.y_eq.symm.trans hy)
  exact hval

/-- The price-scaled balances that were looked up are one for each asset. -/
theorem Pair.IsOf.length_xp {pair : Pair} {p : Pool} {i j : Nat} (h : pair.IsOf p i j) :
    pair.xp.length = p.assetCount :=
  length_of_scaledOf_eq_ok p.length_balances h.scaled_eq

/-- A look-up has one outcome. -/
theorem Pair.IsOf.eq {pair pair' : Pair} {p : Pool} {i j : Nat} (h : pair.IsOf p i j)
    (h' : pair'.IsOf p i j) : pair = pair' := by
  obtain ⟨source, target, xp, d, x, y⟩ := pair
  obtain ⟨source', target', xp', d', x', y'⟩ := pair'
  obtain rfl : source = source' := Option.some.inj (h.source_eq.symm.trans h'.source_eq)
  obtain rfl : target = target' := Option.some.inj (h.target_eq.symm.trans h'.target_eq)
  obtain rfl : xp = xp' := Except.ok.inj (h.scaled_eq.symm.trans h'.scaled_eq)
  obtain rfl : d = d' := Except.ok.inj (h.invariant_eq.symm.trans h'.invariant_eq)
  obtain rfl : x = x' := Option.some.inj (h.x_eq.symm.trans h'.x_eq)
  obtain rfl : y = y' := Option.some.inj (h.y_eq.symm.trans h'.y_eq)
  rfl

/-- A look-up that succeeds finds two assets of the pool and the state of its curve. -/
theorem pair_eq_ok {p : Pool} {i j : Nat} {pair : Pair} (h : (p.pair i j).result = .ok pair) :
    pair.IsOf p i j := by
  simp only [Pool.pair, Logged.result_bind, Logged.result_lift, Logged.result_pure,
    Checked.bind_eq_ok_iff, entry_eq_ok_iff, ensure_eq_ok_iff, exists_const] at h
  obtain ⟨source, hsource, target, htarget, hne, xp, hxp, d, hd, x, hx, y, hy, hpair⟩ := h
  obtain rfl := Except.ok.inj hpair
  exact ⟨hsource, htarget, hne, hxp, hd, hx, hy⟩

/-- The price-scaled amounts that an exchange passes through. -/
structure SwapCourse where
  pair : Pair
  /-- What is paid in. -/
  paid : Amount
  /-- The balance of the source afterwards. -/
  x : Amount
  /-- The balance of the target that keeps the invariant. -/
  y : Amount
  /-- What is taken from the curve. -/
  gross : Amount
  /-- The part of it that stays in the pool. -/
  fee : Amount
  /-- The balance of the target afterwards. -/
  kept : Amount

/-- How each amount of an exchange follows from the ones before it, up to the quote `q`. -/
structure SwapCourse.LeadsTo (s : SwapCourse) (p : Pool) (i j : Nat) (dx : Amount) (q : SwapQuote) :
    Prop where
  pair_isOf : s.pair.IsOf p i j
  val_paid : s.paid.val = s.pair.source.scale.scaledUnits dx.val
  val_x : s.x.val = s.pair.x.val + s.paid.val
  solved : (Curve.outputBalance i j s.x s.pair.xp s.pair.d p.terms.amplification
    p.terms.maxIterations).result = .ok s.y
  gross_add : s.gross.val + s.y.val + 1 = s.pair.y.val
  val_fee : s.fee.val = s.gross.val * p.terms.fee.numerator.val / FeeRate.denominator
  val_kept : s.kept.val = s.y.val + s.fee.val
  val_amountOut : q.amountOut.val = s.pair.target.scale.nativeUnits (s.gross.val - s.fee.val)
  val_quotedFee : q.fee.val = s.pair.target.scale.nativeUnits s.fee.val
  val_balanceIn : q.balanceIn.val = s.pair.source.scale.nativeUnits s.x.val
  val_balanceOut : q.balanceOut.val = s.pair.target.scale.nativeUnits s.kept.val

/-- A quote that succeeds has a course. -/
theorem exists_course_of_quoteSwap_eq_ok {p : Pool} {i j : Nat} {dx : Amount} {q : SwapQuote}
    (h : (p.quoteSwap i j dx).result = .ok q) : ∃ s : SwapCourse, s.LeadsTo p i j dx q := by
  simp only [quoteSwap, Logged.result_bind, Logged.result_lift, Logged.result_pure,
    Checked.bind_eq_ok_iff, PriceScale.toScaled_eq_ok_iff, PriceScale.toNative_eq_ok_iff,
    Word.add_eq_ok_iff, Word.minus_eq_ok_iff, FeeRate.apply_eq_ok_iff] at h
  obtain ⟨pair, hpair, paid, hpaid, x, hx, y, hy, difference, hdifference, gross, hgross, fee, hfee,
    kept, hkept, amountOut, hout, nativeFee, hnativeFee, balanceIn, hin, balanceOut, hleft,
    hq⟩ := h
  obtain rfl := Except.ok.inj hq
  have hone : (1 : Amount).val = 1 := rfl
  exact ⟨⟨pair, paid, x, y, gross, fee, kept⟩, pair_eq_ok hpair, hpaid, hx, hy,
    by simp only; omega, hfee, hkept, hout, hnativeFee, hin, hleft⟩

namespace SwapCourse.LeadsTo

variable {s : SwapCourse} {p : Pool} {i j : Nat} {dx : Amount} {q : SwapQuote}

/-- The fee is a part of what is taken from the curve. -/
theorem fee_le (h : s.LeadsTo p i j dx q) : s.fee.val ≤ s.gross.val := by
  rw [h.val_fee]
  exact p.terms.fee_isValid.charge_le s.gross.val

/-- The price-scaled payout is what the fee leaves. -/
theorem gross_sub_fee (h : s.LeadsTo p i j dx q) :
    s.gross.val - s.fee.val = p.terms.fee.net s.gross.val := by
  rw [h.val_fee]
  rfl

/-- The target keeps at least the fee on all of its price-scaled balance but one unit, as if nothing
were solved for it. -/
theorem charge_le_kept (h : s.LeadsTo p i j dx q) :
    p.terms.fee.charge (s.pair.y.val - 1) ≤ s.kept.val := by
  have hgross := h.gross_add
  have hmono : p.terms.fee.net s.gross.val ≤ p.terms.fee.net (s.pair.y.val - 1) :=
    p.terms.fee_isValid.net_mono (by omega)
  have hfee : s.fee.val = p.terms.fee.charge s.gross.val := h.val_fee
  have hcharge : p.terms.fee.charge (s.pair.y.val - 1) ≤ s.pair.y.val - 1 :=
    p.terms.fee_isValid.charge_le _
  rw [FeeRate.net, FeeRate.net] at hmono
  rw [h.val_kept, hfee]
  omega

/-- The source ends with no more than it had and was paid. -/
theorem balanceIn_le (h : s.LeadsTo p i j dx q) :
    q.balanceIn.val ≤ s.pair.source.balance.val + dx.val := by
  have hsum : s.x.val ≤ s.pair.source.scale.scaledUnits (s.pair.source.balance.val + dx.val) := by
    rw [h.val_x, h.val_paid, h.pair_isOf.val_x]
    exact PriceScale.scaledUnits_add_le _ _ _
  calc q.balanceIn.val = s.pair.source.scale.nativeUnits s.x.val := h.val_balanceIn
    _ ≤ s.pair.source.scale.nativeUnits
        (s.pair.source.scale.scaledUnits (s.pair.source.balance.val + dx.val)) :=
        PriceScale.nativeUnits_mono _ hsum
    _ ≤ s.pair.source.balance.val + dx.val := PriceScale.nativeUnits_scaledUnits_le _ _

/-- Of the price-scaled balance of the target one unit is neither kept nor paid out. -/
theorem kept_add_succ (h : s.LeadsTo p i j dx q) :
    s.kept.val + (s.gross.val - s.fee.val) + 1 =
      s.pair.target.scale.scaledUnits s.pair.target.balance.val := by
  have hfee := h.fee_le
  have hgross := h.gross_add
  have hkept := h.val_kept
  have hy := h.pair_isOf.val_y
  omega

/-- What the target keeps and what is paid out of it do not exceed what it had. -/
theorem balanceOut_add_le (h : s.LeadsTo p i j dx q) :
    q.balanceOut.val + q.amountOut.val ≤ s.pair.target.balance.val := by
  have hsum : s.kept.val + (s.gross.val - s.fee.val) ≤
      s.pair.target.scale.scaledUnits s.pair.target.balance.val :=
    h.kept_add_succ ▸ Nat.le_succ _
  calc q.balanceOut.val + q.amountOut.val
      = s.pair.target.scale.nativeUnits s.kept.val +
          s.pair.target.scale.nativeUnits (s.gross.val - s.fee.val) := by
        rw [h.val_balanceOut, h.val_amountOut]
    _ ≤ s.pair.target.scale.nativeUnits (s.kept.val + (s.gross.val - s.fee.val)) :=
        PriceScale.nativeUnits_add_le _ _ _
    _ ≤ s.pair.target.scale.nativeUnits
        (s.pair.target.scale.scaledUnits s.pair.target.balance.val) :=
        PriceScale.nativeUnits_mono _ hsum
    _ ≤ s.pair.target.balance.val := PriceScale.nativeUnits_scaledUnits_le _ _

/-- A source with a whole scale ends with exactly what it had and was paid. -/
theorem balanceIn_eq (h : s.LeadsTo p i j dx q) (hwhole : s.pair.source.scale.IsWhole) :
    q.balanceIn.val = s.pair.source.balance.val + dx.val := by
  have hsum : s.x.val = s.pair.source.scale.scaledUnits (s.pair.source.balance.val + dx.val) := by
    rw [h.val_x, h.val_paid, h.pair_isOf.val_x, hwhole.scaledUnits_eq, hwhole.scaledUnits_eq,
      hwhole.scaledUnits_eq, Nat.add_mul]
  rw [h.val_balanceIn, hsum, hwhole.nativeUnits_scaledUnits]

/-- Of a target with a whole scale exactly one unit is neither kept nor paid out. -/
theorem balanceOut_add_succ (h : s.LeadsTo p i j dx q) (hwhole : s.pair.target.scale.IsWhole) :
    q.balanceOut.val + q.amountOut.val + 1 = s.pair.target.balance.val := by
  rw [h.val_balanceOut, h.val_amountOut]
  exact hwhole.nativeUnits_add_succ h.kept_add_succ

end SwapCourse.LeadsTo

/-- An exchange that succeeds is a quote carried out. -/
theorem swapAtLeast_eq_ok {p after : Pool} {i j : Nat} {dx minimum out : Amount}
    (h : (p.swapAtLeast i j dx minimum).result = .ok (out, after)) :
    ∃ q, (p.quoteSwap i j dx).result = .ok q ∧ minimum ≤ q.amountOut ∧ out = q.amountOut ∧
      after = (p.setBalance i q.balanceIn).setBalance j q.balanceOut := by
  simp only [swapAtLeast_eq, Logged.result_bind, Logged.result_lift, Logged.result_report,
    Logged.result_pure, Checked.bind_eq_ok_iff, ensure_eq_ok_iff, exists_const] at h
  obtain ⟨q, hq, hminimum, -, hout⟩ := h
  obtain ⟨rfl, rfl⟩ := Prod.mk.inj (Except.ok.inj hout)
  exact ⟨q, hq, hminimum, rfl, rfl⟩

/-- The assets once one balance is replaced. -/
theorem getElem?_setBalance (p : Pool) (i k : Nat) (balance : Amount) :
    (p.setBalance i balance).assets[k]? =
      if i = k then (p.assets[k]?).map (fun asset => { asset with balance }) else p.assets[k]? := by
  rw [setBalance, List.getElem?_modify]
  split <;> simp

/-- The balances once one is replaced. -/
theorem balances_setBalance (p : Pool) (i : Nat) (balance : Amount) :
    (p.setBalance i balance).balances = p.balances.set i balance := by
  apply List.ext_getElem?
  intro k
  rw [balances, List.getElem?_map, getElem?_setBalance, List.getElem?_set, balances,
    List.getElem?_map, List.length_map]
  by_cases hi : i = k
  · subst hi
    by_cases hlt : i < p.assets.length
    · simp [hlt]
    · simp [hlt]
  · simp [hi]

/-- The balance that an exchange leaves asset `k`, by the part the asset takes in it. -/
inductive SwapCourse.Leaves (s : SwapCourse) (i j : Nat) (q : SwapQuote) :
    Nat → Asset → Amount → Prop
  | source : s.Leaves i j q i s.pair.source q.balanceIn
  | target : s.Leaves i j q j s.pair.target q.balanceOut
  | other {k : Nat} {asset : Asset} (hi : i ≠ k) (hj : j ≠ k) : s.Leaves i j q k asset asset.balance

/-- An exchange that succeeds has a course, which says what is left of every asset. -/
theorem exists_course_of_swapAtLeast_eq_ok {p after : Pool} {i j : Nat} {dx minimum out : Amount}
    (h : (p.swapAtLeast i j dx minimum).result = .ok (out, after)) :
    ∃ (s : SwapCourse) (q : SwapQuote), (p.quoteSwap i j dx).result = .ok q ∧
      s.LeadsTo p i j dx q ∧ out = q.amountOut ∧
      ∀ {k : Nat} {asset : Asset}, p.assets[k]? = some asset → ∃ balance : Amount,
        after.assets[k]? = some { asset with balance } ∧ s.Leaves i j q k asset balance := by
  obtain ⟨q, hq, -, rfl, rfl⟩ := swapAtLeast_eq_ok h
  obtain ⟨s, hs⟩ := exists_course_of_quoteSwap_eq_ok hq
  have hne := hs.pair_isOf.ne
  refine ⟨s, q, hq, hs, rfl, fun {k asset} hasset => ?_⟩
  rw [getElem?_setBalance, getElem?_setBalance, hasset]
  by_cases hi : i = k
  · subst hi
    obtain rfl : s.pair.source = asset := Option.some.inj (hs.pair_isOf.source_eq.symm.trans hasset)
    exact ⟨q.balanceIn, by simp [hne.symm], .source⟩
  by_cases hj : j = k
  · subst hj
    obtain rfl : s.pair.target = asset := Option.some.inj (hs.pair_isOf.target_eq.symm.trans hasset)
    exact ⟨q.balanceOut, by simp [hne], .target⟩
  exact ⟨asset.balance, by simp [hi, hj], .other hi hj⟩

/-- What an exchange leaves of an asset: no more than it had and was paid less what is paid out of
it, and exactly its balance if it is neither of the two assets exchanged. -/
theorem getElem?_of_swapAtLeast_eq_ok {p after : Pool} {i j : Nat} {dx minimum out : Amount}
    (h : (p.swapAtLeast i j dx minimum).result = .ok (out, after)) {k : Nat} {asset : Asset}
    (hasset : p.assets[k]? = some asset) :
    ∃ balance : Amount, after.assets[k]? = some { asset with balance } ∧
      balance.val + (if j = k then out.val else 0) ≤
        asset.balance.val + (if i = k then dx.val else 0) ∧
      (i ≠ k → j ≠ k → balance = asset.balance) := by
  obtain ⟨s, q, -, hs, rfl, hafter⟩ := exists_course_of_swapAtLeast_eq_ok h
  obtain ⟨balance, hk, hleft⟩ := hafter hasset
  have hne := hs.pair_isOf.ne
  refine ⟨balance, hk, ?_⟩
  cases hleft with
  | source => exact ⟨by simpa [hne.symm] using hs.balanceIn_le, fun hi => absurd rfl hi⟩
  | target => exact ⟨by simpa [hne] using hs.balanceOut_add_le, fun _ hj => absurd rfl hj⟩
  | other hi hj => exact ⟨by simp [hi, hj], fun _ _ => rfl⟩

end StablePool.Pool
