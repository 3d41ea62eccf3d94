import StablePool.Proofs.Pool.Exchange
import StablePool.Proofs.Pool.Liquidity

/-!
# The course of a withdrawal of one asset

A withdrawal of one asset lowers the invariant by the share that the tokens stand for and solves
twice for the balance of the asset: once beside the other balances as they are, for the payout free
of charge, and once beside balances that are reduced by a fee. The course names the amounts on the
way, in price-scaled units.

When a withdrawal is refused is not stated here.
-/

namespace StablePool.Pool

/-- The price-scaled amounts that a withdrawal of one asset passes through. -/
structure WithdrawalCourse where
  asset : Asset
  /-- The price-scaled balances of all assets. -/
  xp : List Amount
  /-- Their invariant. -/
  d0 : Amount
  /-- The invariant less the share of the tokens. -/
  d1 : Amount
  /-- The balance of the asset at the lower invariant. -/
  free : Amount
  /-- The balances less the fees on their departures. -/
  reduced : List Amount
  /-- The balance of the asset at the lower invariant beside the reduced balances. -/
  y : Amount
  /-- The balance of the asset. -/
  x : Amount
  /-- The reduced balance of the asset. -/
  left : Amount

/-- How each amount of a withdrawal of one asset follows from the ones before it, up to the quote
`q`. -/
structure WithdrawalCourse.LeadsTo (s : WithdrawalCourse) (p : Pool) (tokenAmount : Amount) (i : Nat)
    (q : AssetWithdrawal) : Prop where
  asset_eq : p.assets[i]? = some s.asset
  scaled_eq : p.scaled = .ok s.xp
  invariant_eq : (p.curveInvariant s.xp).result = .ok s.d0
  d1_add : s.d1.val + tokenAmount.val * s.d0.val / p.tokenSupply.val = s.d0.val
  free_solved : (Curve.balanceAt i s.xp s.d1 p.terms.amplification p.terms.maxIterations).result =
    .ok s.free
  reduced_eq : ∃ rate, s.xp.zipIdx.mapM (fun (x, k) =>
    chargeDeparture rate i s.free s.d0 s.d1 x k) = .ok s.reduced
  solved : (Curve.balanceAt i s.reduced s.d1 p.terms.amplification p.terms.maxIterations).result =
    .ok s.y
  x_eq : s.xp[i]? = some s.x
  left_eq : s.reduced[i]? = some s.left
  y_lt_left : s.y.val < s.left.val
  free_le : s.free.val ≤ s.x.val
  val_amount : q.amount.val = s.asset.scale.nativeUnits (s.left.val - s.y.val - 1)
  val_feeFreeAmount : q.feeFreeAmount.val = s.asset.scale.nativeUnits (s.x.val - s.free.val)

/-- A quote that succeeds has a course. -/
theorem exists_course_of_quoteWithdrawAsset_eq_ok {p : Pool} {tokenAmount : Amount} {i : Nat}
    {q : AssetWithdrawal} (h : (p.quoteWithdrawAsset tokenAmount i).result = .ok q) :
    ∃ s : WithdrawalCourse, s.LeadsTo p tokenAmount i q := by
  simp only [quoteWithdrawAsset, Logged.result_bind, Logged.result_mapM, Logged.result_lift,
    Logged.result_pure, Checked.bind_eq_ok_iff, entry_eq_ok_iff, Word.sub_eq_ok_iff,
    Word.minus_eq_ok_iff, Word.mulDiv_eq_ok_iff, PriceScale.toNative_eq_ok_iff] at h
  obtain ⟨asset, hasset, xp, hxp, d0, hd0, share, ⟨-, hshare⟩, d1, hd1, free, hfree, rate, -,
    reduced, hreduced, y, hy, left, hleft, difference, hdifference, paid, hpaid, x, hx, paidFree,
    hpaidFree, amount, hamount, feeFree, hfeeFree, hq⟩ := h
  obtain rfl := Except.ok.inj hq
  rw [Word.val_one] at hpaid
  refine ⟨⟨asset, xp, d0, d1, free, reduced, y, x, left⟩, hasset, hxp, hd0, hshare ▸ hd1, hfree,
    ⟨rate, hreduced⟩, hy, hx, hleft, ?_, ?_, ?_, ?_⟩
  · change y.val < left.val
    omega
  · change free.val ≤ x.val
    omega
  · change amount.val = asset.scale.nativeUnits (left.val - y.val - 1)
    rw [hamount, show left.val - y.val - 1 = paid.val by omega]
    rfl
  · change feeFree.val = asset.scale.nativeUnits (x.val - free.val)
    rw [hfeeFree, show x.val - free.val = paidFree.val by omega]
    rfl

/-- A charge for a departure never raises a balance. -/
theorem le_of_chargeDeparture_eq_ok {rate : FeeRate} {i k : Nat} {y d0 d1 x charged : Amount}
    (h : chargeDeparture rate i y d0 d1 x k = .ok charged) : charged.val ≤ x.val := by
  obtain ⟨proportional, -, h⟩ := Checked.bind_eq_ok_iff.1 h
  have hcharged : ∃ fee : Amount, charged.val + fee.val = x.val := by
    dsimp only at h
    split at h
    all_goals
      obtain ⟨departure, -, h⟩ := Checked.bind_eq_ok_iff.1 h
      obtain ⟨fee, -, h⟩ := Checked.bind_eq_ok_iff.1 h
      exact ⟨fee, Word.sub_eq_ok_iff.1 h⟩
  obtain ⟨fee, hfee⟩ := hcharged
  omega

/-- While the invariant stays, the other balances do not depart and are not charged. -/
theorem eq_of_chargeDeparture_eq_ok {rate : FeeRate} {i k : Nat} {y d x charged : Amount}
    (hk : k ≠ i) (h : chargeDeparture rate i y d d x k = .ok charged) : charged = x := by
  simp only [chargeDeparture, if_neg hk, Checked.bind_eq_ok_iff, Word.mulDiv_eq_ok_iff,
    Word.sub_eq_ok_iff, FeeRate.apply_eq_ok_iff] at h
  obtain ⟨proportional, ⟨hd, hproportional⟩, departure, hdeparture, fee, hfee, hcharged⟩ := h
  rw [Nat.mul_div_cancel _ hd] at hproportional
  have hzero : departure.val = 0 := by omega
  rw [hzero, Nat.zero_mul, Nat.zero_div] at hfee
  rw [Word.ext_iff]
  omega

namespace WithdrawalCourse.LeadsTo

variable {s : WithdrawalCourse} {p : Pool} {tokenAmount : Amount} {i : Nat} {q : AssetWithdrawal}

/-- The balance of the asset that was looked up is its balance in price-scaled units. -/
theorem val_x (h : s.LeadsTo p tokenAmount i q) :
    s.x.val = s.asset.scale.scaledUnits s.asset.balance.val := by
  obtain ⟨x, hx, hval⟩ := getElem?_of_scaled_eq_ok h.scaled_eq h.asset_eq
  obtain rfl : s.x = x := Option.some.inj (h.x_eq.symm.trans hx)
  exact hval

/-- The charges keep one entry for each asset. -/
theorem length_reduced (h : s.LeadsTo p tokenAmount i q) : s.reduced.length = s.xp.length := by
  obtain ⟨rate, hreduced⟩ := h.reduced_eq
  simpa using Checked.length_eq_of_mapM_eq_ok hreduced

/-- The balance at an index is charged for its own departure. -/
theorem exists_charged (h : s.LeadsTo p tokenAmount i q) {k : Nat} {x : Amount}
    (hx : s.xp[k]? = some x) :
    ∃ rate charged, s.reduced[k]? = some charged ∧
      chargeDeparture rate i s.free s.d0 s.d1 x k = .ok charged := by
  obtain ⟨rate, hreduced⟩ := h.reduced_eq
  have hindexed : s.xp.zipIdx[k]? = some (x, k) := by simp [List.getElem?_zipIdx, hx]
  obtain ⟨charged, hcharged, hstep⟩ := Checked.exists_getElem?_of_mapM_eq_ok hreduced hindexed
  exact ⟨rate, charged, hcharged, hstep⟩

/-- The reduced balance of the asset is not larger than its balance. -/
theorem left_le (h : s.LeadsTo p tokenAmount i q) : s.left.val ≤ s.x.val := by
  obtain ⟨rate, charged, hcharged, hstep⟩ := h.exists_charged h.x_eq
  obtain rfl : s.left = charged := Option.some.inj (h.left_eq.symm.trans hcharged)
  exact le_of_chargeDeparture_eq_ok hstep

/-- No more price-scaled units than there were convert to no more than the balance. -/
theorem nativeUnits_le (h : s.LeadsTo p tokenAmount i q) {units : Nat} (hunits : units ≤ s.x.val) :
    s.asset.scale.nativeUnits units ≤ s.asset.balance.val := by
  calc s.asset.scale.nativeUnits units
      ≤ s.asset.scale.nativeUnits (s.asset.scale.scaledUnits s.asset.balance.val) :=
        PriceScale.nativeUnits_mono _ (h.val_x ▸ hunits)
    _ ≤ s.asset.balance.val := PriceScale.nativeUnits_scaledUnits_le _ _

/-- The payout does not exceed the balance. -/
theorem amount_le (h : s.LeadsTo p tokenAmount i q) : q.amount.val ≤ s.asset.balance.val := by
  have hleft := h.left_le
  rw [h.val_amount]
  exact h.nativeUnits_le (by omega)

/-- The payout free of charge does not exceed the balance. -/
theorem feeFreeAmount_le (h : s.LeadsTo p tokenAmount i q) :
    q.feeFreeAmount.val ≤ s.asset.balance.val := by
  rw [h.val_feeFreeAmount]
  exact h.nativeUnits_le (Nat.sub_le _ _)

/-- While the invariant stays, both solves have the same fixed balances. -/
theorem eraseIdx_reduced (h : s.LeadsTo p tokenAmount i q) (hd : s.d1 = s.d0) :
    s.reduced.eraseIdx i = s.xp.eraseIdx i := by
  have hsame (k : Nat) (hk : k ≠ i) : s.reduced[k]? = s.xp[k]? := by
    cases hx : s.xp[k]? with
    | none =>
      rw [List.getElem?_eq_none_iff] at hx ⊢
      exact h.length_reduced ▸ hx
    | some x =>
      obtain ⟨rate, charged, hcharged, hstep⟩ := h.exists_charged hx
      rw [hd] at hstep
      rw [hcharged, eq_of_chargeDeparture_eq_ok hk hstep]
  apply List.ext_getElem?
  intro k
  rw [List.getElem?_eraseIdx, List.getElem?_eraseIdx]
  split
  · exact hsame k (by omega)
  · exact hsame (k + 1) (by omega)

end WithdrawalCourse.LeadsTo

end StablePool.Pool
