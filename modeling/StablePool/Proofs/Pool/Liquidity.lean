import StablePool.Pool.Withdrawal

/-!
# The course of deposits and withdrawals

A deposit and a withdrawal of chosen amounts are charged in the same way: both compare the pool
before with tentative balances, take fees off these, and are counted at the invariant of what is
left. The course names the amounts on the way. For each command the lemmas below then give, asset by
asset, what a success leaves in the pool and what it credits to the administrator.

When a command is refused is not stated here.
-/

namespace StablePool.Pool

/-- What an uneven operation passes through between the invariant of the pool and that of the
balances net of fees. -/
structure LiquidityCourse where
  /-- The invariant of the pool. -/
  d0 : Amount
  /-- The balances with the amounts moved, before fees. -/
  tentative : List Amount
  /-- Their invariant. -/
  d1 : Amount
  charges : List Charge
  /-- The balances less the whole fees. -/
  net : List Amount
  /-- Their invariant. -/
  d2 : Amount

/-- How the amounts of an uneven operation follow from each other, up to the quoted entries. -/
structure LiquidityCourse.LeadsTo (s : LiquidityCourse) (p : Pool) (entries : List AssetQuote) :
    Prop where
  invariant_eq : p.invariant.result = .ok s.d0
  tentative_eq : (p.invariantOf s.tentative).result = .ok s.d1
  charges_eq : p.deviationCharges s.d0 s.d1 s.tentative = .ok s.charges
  net_eq : ∃ step, netOfFees s.tentative s.charges step = .ok s.net
  entries_eq : ∃ step, netOfAdminFees s.tentative s.charges step = .ok entries
  final_eq : (p.invariantOf s.net).result = .ok s.d2

/-- How the fee on one tentative balance is taken off it: the whole of it for the balance net of fees
`net`, the administrator's share of it for the entry that is carried out. -/
structure SplitsFee (adminFee : FeeRate) (tentative net : Amount) (e : AssetQuote) : Prop where
  net_add : net.val + e.charge.fee.val = tentative.val
  balance_add : e.balance.val + e.charge.adminFee.val = tentative.val
  val_adminFee : e.charge.adminFee.val =
    e.charge.fee.val * adminFee.numerator.val / FeeRate.denominator

namespace SplitsFee

variable {adminFee : FeeRate} {tentative net : Amount} {e : AssetQuote}

/-- The balance that is carried out keeps what the administrator does not take of the fee. -/
theorem net_le (h : SplitsFee adminFee tentative net e) (hvalid : adminFee.IsValid) :
    net.val ≤ e.balance.val := by
  have hcharge : e.charge.adminFee.val ≤ e.charge.fee.val :=
    h.val_adminFee ▸ hvalid.charge_le e.charge.fee.val
  have hnet := h.net_add
  have hbalance := h.balance_add
  omega

/-- An administrator without a share takes nothing. -/
theorem balance_eq_of_zero (h : SplitsFee .zero tentative net e) : e.balance = tentative := by
  have hnone := h.val_adminFee
  rw [show FeeRate.zero.numerator.val = 0 from rfl, Nat.mul_zero, Nat.zero_div] at hnone
  have hbalance := h.balance_add
  rw [Word.ext_iff]
  omega

/-- An administrator with the whole share takes the fee. -/
theorem balance_eq_of_full (h : SplitsFee .full tentative net e) : e.balance = net := by
  have hall := h.val_adminFee
  rw [show FeeRate.full.numerator.val = FeeRate.denominator from rfl,
    Nat.mul_div_cancel _ (by decide)] at hall
  have hnet := h.net_add
  have hbalance := h.balance_add
  rw [Word.ext_iff]
  omega

/-- An administrator with less than the whole share leaves something of every tentative balance. -/
theorem balance_pos (h : SplitsFee adminFee tentative net e) (hvalid : adminFee.IsValid)
    (hfull : adminFee ≠ .full) (hpos : 0 < tentative.val) : 0 < e.balance.val := by
  have hnet := h.net_add
  have hbalance := h.balance_add
  have hshare := h.val_adminFee
  rcases Nat.eq_zero_or_pos e.charge.fee.val with hzero | hsome
  · rw [hzero, Nat.zero_mul, Nat.zero_div] at hshare
    omega
  · have hless := hvalid.charge_lt hfull hsome
    omega

end SplitsFee

/-- How much is charged for the move of one balance from `old` to `new`: the rate on uneven operations of
how far the new balance lies from the ideal one. -/
structure ChargesDeviation (p : Pool) (d0 d1 old new fee : Amount) : Prop where
  d0_pos : 0 < d0.val
  val_fee : ∃ rate, p.terms.fee.imbalanceRate p.assetCount = .ok rate ∧
    fee.val = ((d1.val * old.val / d0.val - new.val) + (new.val - d1.val * old.val / d0.val)) *
      rate.numerator.val / FeeRate.denominator

namespace ChargesDeviation

variable {p : Pool} {d0 d1 old new fee : Amount}

/-- At a rate that rounds down to nothing no fee is charged. -/
theorem fee_eq_zero (h : p.ChargesDeviation d0 d1 old new fee)
    (hrate : p.terms.fee.imbalanceRate p.assetCount = .ok .zero) : fee = 0 := by
  obtain ⟨rate, hrate', hfee⟩ := h.val_fee
  obtain rfl : rate = .zero := Except.ok.inj (hrate'.symm.trans hrate)
  rw [show FeeRate.zero.numerator.val = 0 from rfl, Nat.mul_zero, Nat.zero_div] at hfee
  exact Word.eq_zero_iff.2 hfee

/-- A balance that is the ideal one is not charged. -/
theorem fee_eq_zero_of_ideal (h : p.ChargesDeviation d0 d1 old new fee)
    (hideal : d1.val * old.val / d0.val = new.val) : fee = 0 := by
  obtain ⟨rate, -, hfee⟩ := h.val_fee
  rw [hideal, Nat.sub_self, Nat.add_zero, Nat.zero_mul, Nat.zero_div] at hfee
  exact Word.eq_zero_iff.2 hfee

end ChargesDeviation

namespace LiquidityCourse.LeadsTo

variable {s : LiquidityCourse} {p : Pool} {entries : List AssetQuote} {k : Nat} {asset : Asset}
  {balance : Amount}

/-- Each tentative balance is charged for its deviation, and the fee is split off it. -/
theorem exists_chargesDeviation (h : s.LeadsTo p entries) (hasset : p.assets[k]? = some asset)
    (hbalance : s.tentative[k]? = some balance) :
    ∃ net e, s.net[k]? = some net ∧ entries[k]? = some e ∧
      p.ChargesDeviation s.d0 s.d1 asset.balance balance e.charge.fee ∧
      SplitsFee p.terms.adminFee balance net e := by
  have hold := getElem?_balances hasset
  obtain ⟨rate, hrate, hcharges⟩ := Checked.bind_eq_ok_iff.1 h.charges_eq
  obtain ⟨charge, hcharge, hcharged⟩ :=
    Checked.exists_getElem?_of_mapM_zip_eq_ok hcharges hold hbalance
  simp only [Checked.bind_eq_ok_iff, FeeRate.apply_eq_ok_iff, Word.mulDiv_eq_ok_iff,
    Checked.pure_eq_ok_iff] at hcharged
  obtain ⟨ideal, ⟨hpos, hideal⟩, fee, hfee, adminFee, hadminFee, rfl⟩ := hcharged
  rw [Word.val_distance, hideal] at hfee
  obtain ⟨_, hnet⟩ := h.net_eq
  obtain ⟨net, hnet, hsub⟩ := Checked.exists_getElem?_of_mapM_zip_eq_ok hnet hbalance hcharge
  obtain ⟨_, hentries⟩ := h.entries_eq
  obtain ⟨e, he, hkept⟩ := Checked.exists_getElem?_of_mapM_zip_eq_ok hentries hbalance hcharge
  simp only [Checked.bind_eq_ok_iff, Word.sub_eq_ok_iff, Checked.pure_eq_ok_iff] at hkept
  obtain ⟨kept, hkept, rfl⟩ := hkept
  exact ⟨net, _, hnet, he, ⟨hpos, rate, hrate, hfee⟩, Word.sub_eq_ok_iff.1 hsub, hkept, hadminFee⟩

/-- From each tentative balance its fee is split off. -/
theorem exists_splitsFee (h : s.LeadsTo p entries) (hasset : p.assets[k]? = some asset)
    (hbalance : s.tentative[k]? = some balance) :
    ∃ net e, s.net[k]? = some net ∧ entries[k]? = some e ∧
      SplitsFee p.terms.adminFee balance net e := by
  obtain ⟨net, e, hnet, he, -, hsplits⟩ := h.exists_chargesDeviation hasset hbalance
  exact ⟨net, e, hnet, he, hsplits⟩

/-- Of each tentative balance the administrator's share is split off, and no more. -/
theorem exists_entry (h : s.LeadsTo p entries) (hasset : p.assets[k]? = some asset)
    (hbalance : s.tentative[k]? = some balance) :
    ∃ e, entries[k]? = some e ∧ e.balance.val + e.charge.adminFee.val = balance.val := by
  obtain ⟨_, e, -, he, hsplits⟩ := h.exists_splitsFee hasset hbalance
  exact ⟨e, he, hsplits.balance_add⟩

end LiquidityCourse.LeadsTo

/-- Carrying out quoted entries sets each balance and credits each administrator's share. -/
theorem getElem?_of_settleAssets_eq_ok {p : Pool} {entries : List AssetQuote} {assets : List Asset}
    (h : p.settleAssets entries = .ok assets) {k : Nat} {asset : Asset} {e : AssetQuote}
    (hasset : p.assets[k]? = some asset) (he : entries[k]? = some e) :
    ∃ adminBalance : Amount, assets[k]? = some ⟨e.balance, adminBalance, asset.scale⟩ ∧
      adminBalance.val = asset.adminBalance.val + e.charge.adminFee.val := by
  obtain ⟨settled, hsettled, hstep⟩ := Checked.exists_getElem?_of_mapM_zip_eq_ok h hasset he
  simp only [Checked.bind_eq_ok_iff, Word.add_eq_ok_iff, Checked.pure_eq_ok_iff] at hstep
  obtain ⟨adminBalance, hadmin, rfl⟩ := hstep
  exact ⟨adminBalance, hsettled, hadmin⟩

/-- A list with an entry for each asset has one at the index of every asset. -/
theorem exists_getElem?_of_length_eq {α : Type} {p : Pool} {entries : List α}
    (hlength : entries.length = p.assetCount) {k : Nat} {asset : Asset}
    (hasset : p.assets[k]? = some asset) : ∃ e, entries[k]? = some e := by
  obtain ⟨hk, -⟩ := List.getElem?_eq_some_iff.1 hasset
  have hk : k < entries.length := hlength ▸ hk
  exact ⟨entries[k], List.getElem?_eq_getElem hk⟩

/-- A quoted deposit is either the first and free of charge, or has a course. -/
theorem quoteDeposit_eq_ok {p : Pool} {amounts : List Amount} {q : LiquidityQuote}
    (h : (p.quoteDeposit amounts).result = .ok q) :
    amounts.length = p.assetCount ∧ ∃ after,
      (p.balances.zip amounts).mapM (fun (held, paid) => held.add paid "deposit balance") =
        .ok after ∧
      (p.tokenSupply = 0 ∧ (p.invariantOf after).result = .ok q.tokenAmount ∧
          q.entries = after.map (fun balance => ⟨balance, ⟨0, 0⟩⟩) ∨
        p.tokenSupply ≠ 0 ∧ ∃ s : LiquidityCourse, s.tentative = after ∧ s.LeadsTo p q.entries ∧
          ∃ growth : Amount, growth.val + s.d0.val = s.d2.val ∧
            Word.mulDiv p.tokenSupply growth s.d0 "lp mint" = .ok q.tokenAmount) := by
  simp only [quoteDeposit, expectOneEach, Logged.result_bind, Logged.result_mapM,
    Logged.result_lift, Logged.result_pure, apply_ite Logged.result, Checked.bind_eq_ok_iff,
    ensure_eq_ok_iff, exists_const] at h
  obtain ⟨hlength, d0, hd0, after, hafter, d1, hd1, h⟩ := h
  refine ⟨hlength, after, hafter, ?_⟩
  split at h
  · next hfirst =>
    obtain rfl := Except.ok.inj h
    exact .inl ⟨hfirst, hd1, rfl⟩
  · next hlater =>
    simp only [Checked.bind_eq_ok_iff, Word.minus_eq_ok_iff] at h
    obtain ⟨charges, hcharges, net, hnet, entries, hentries, d2, hd2, growth, hgrowth, mint, hmint,
      hq⟩ := h
    obtain rfl := Except.ok.inj hq
    exact .inr ⟨hlater, ⟨d0, after, d1, charges, net, d2⟩, rfl,
      ⟨hd0, hd1, hcharges, ⟨_, hnet⟩, ⟨_, hentries⟩, hd2⟩, growth, hgrowth, hmint⟩

/-- A deposit that succeeds is a quote carried out, which mints something. -/
theorem depositAtLeast_eq_ok {p after : Pool} {amounts : List Amount} {minimum mint : Amount}
    (h : (p.depositAtLeast amounts minimum).result = .ok (mint, after)) :
    ∃ q tokenSupply assets, (p.quoteDeposit amounts).result = .ok q ∧ mint = q.tokenAmount ∧
      mint ≠ 0 ∧ minimum ≤ mint ∧ tokenSupply.val = p.tokenSupply.val + mint.val ∧
      p.settleAssets q.entries = .ok assets ∧ after = { p with assets, tokenSupply } := by
  simp only [depositAtLeast_eq, Logged.result_bind, Logged.result_lift, Logged.result_report,
    Logged.result_pure, Checked.bind_eq_ok_iff, ensure_eq_ok_iff, Word.add_eq_ok_iff,
    exists_const] at h
  obtain ⟨q, hq, hsome, hminimum, tokenSupply, hsupply, assets, hassets, -, hout⟩ := h
  obtain ⟨rfl, rfl⟩ := Prod.mk.inj (Except.ok.inj hout)
  exact ⟨q, tokenSupply, assets, hq, rfl, hsome, hminimum, hsupply, hassets, rfl⟩

/-- What a deposit leaves of an asset: the balance and what is credited to the administrator grow
together by what was paid in. -/
theorem getElem?_of_depositAtLeast_eq_ok {p after : Pool} {amounts : List Amount}
    {minimum mint : Amount} (h : (p.depositAtLeast amounts minimum).result = .ok (mint, after))
    {k : Nat} {asset : Asset} (hasset : p.assets[k]? = some asset) :
    ∃ paid balance adminBalance adminFee : Amount, amounts[k]? = some paid ∧
      after.assets[k]? = some ⟨balance, adminBalance, asset.scale⟩ ∧
      balance.val + adminFee.val = asset.balance.val + paid.val ∧
      adminBalance.val = asset.adminBalance.val + adminFee.val := by
  obtain ⟨q, tokenSupply, assets, hq, -, -, -, -, hassets, rfl⟩ := depositAtLeast_eq_ok h
  obtain ⟨hlength, tentative, htentative, hcourse⟩ := quoteDeposit_eq_ok hq
  obtain ⟨paid, hpaid⟩ := exists_getElem?_of_length_eq hlength hasset
  have hheld := getElem?_balances hasset
  obtain ⟨sum, hsum, hadd⟩ := Checked.exists_getElem?_of_mapM_zip_eq_ok htentative hheld hpaid
  have hval : sum.val = asset.balance.val + paid.val := Word.add_eq_ok_iff.1 hadd
  have hentry : ∃ e, q.entries[k]? = some e ∧
      e.balance.val + e.charge.adminFee.val = sum.val := by
    obtain ⟨-, -, hentries⟩ | ⟨-, s, rfl, hleads, -⟩ := hcourse
    · exact ⟨⟨sum, ⟨0, 0⟩⟩, by simp [hentries, hsum], rfl⟩
    · exact hleads.exists_entry hasset hsum
  obtain ⟨e, he, hsplit⟩ := hentry
  obtain ⟨adminBalance, hk, hadmin⟩ := getElem?_of_settleAssets_eq_ok hassets hasset he
  exact ⟨paid, e.balance, adminBalance, e.charge.adminFee, hpaid, hk, hsplit.trans hval, hadmin⟩

/-- A withdrawal of chosen amounts that is quoted has a course. -/
theorem quoteWithdrawAmounts_eq_ok {p : Pool} {amounts : List Amount} {q : LiquidityQuote}
    (h : (p.quoteWithdrawAmounts amounts).result = .ok q) :
    amounts.length = p.assetCount ∧ ∃ s : LiquidityCourse,
      (p.balances.zip amounts).mapM
        (fun (held, taken) => held.sub taken "withdrawal exceeds balance") = .ok s.tentative ∧
      s.LeadsTo p q.entries ∧ ∃ shrink : Amount, shrink.val + s.d2.val = s.d0.val ∧
        Word.mulDiv p.tokenSupply shrink s.d0 "lp burn" = .ok q.tokenAmount := by
  simp only [quoteWithdrawAmounts, expectOneEach, Logged.result_bind, Logged.result_mapM,
    Logged.result_lift, Logged.result_pure, Checked.bind_eq_ok_iff, ensure_eq_ok_iff,
    Word.minus_eq_ok_iff, exists_const] at h
  obtain ⟨hlength, d0, hd0, after, hafter, d1, hd1, charges, hcharges, net, hnet, entries, hentries,
    d2, hd2, shrink, hshrink, burn, hburn, hq⟩ := h
  obtain rfl := Except.ok.inj hq
  exact ⟨hlength, ⟨d0, after, d1, charges, net, d2⟩, hafter,
    ⟨hd0, hd1, hcharges, ⟨_, hnet⟩, ⟨_, hentries⟩, hd2⟩, shrink, hshrink, hburn⟩

/-- A withdrawal of chosen amounts that succeeds is a quote carried out. -/
theorem withdrawAmounts_eq_ok {p after : Pool} {amounts : List Amount} {burn : Amount}
    (h : (p.withdrawAmounts amounts).result = .ok (burn, after)) :
    ∃ q tokenSupply assets, (p.quoteWithdrawAmounts amounts).result = .ok q ∧
      burn = q.tokenAmount ∧ tokenSupply.val + burn.val = p.tokenSupply.val ∧
      p.settleAssets q.entries = .ok assets ∧ after = { p with assets, tokenSupply } := by
  simp only [withdrawAmounts_eq, Logged.result_bind, Logged.result_lift, Logged.result_report,
    Logged.result_pure, Checked.bind_eq_ok_iff, Word.sub_eq_ok_iff, exists_const] at h
  obtain ⟨q, hq, tokenSupply, hsupply, assets, hassets, -, hout⟩ := h
  obtain ⟨rfl, rfl⟩ := Prod.mk.inj (Except.ok.inj hout)
  exact ⟨q, tokenSupply, assets, hq, rfl, hsupply, hassets, rfl⟩

/-- What a withdrawal of chosen amounts leaves of an asset: the balance falls by what is taken and
by what is credited to the administrator. -/
theorem getElem?_of_withdrawAmounts_eq_ok {p after : Pool} {amounts : List Amount} {burn : Amount}
    (h : (p.withdrawAmounts amounts).result = .ok (burn, after)) {k : Nat} {asset : Asset}
    (hasset : p.assets[k]? = some asset) :
    ∃ taken balance adminBalance adminFee : Amount, amounts[k]? = some taken ∧
      after.assets[k]? = some ⟨balance, adminBalance, asset.scale⟩ ∧
      balance.val + adminFee.val + taken.val = asset.balance.val ∧
      adminBalance.val = asset.adminBalance.val + adminFee.val := by
  obtain ⟨q, tokenSupply, assets, hq, -, -, hassets, rfl⟩ := withdrawAmounts_eq_ok h
  obtain ⟨hlength, s, htentative, hleads, -⟩ := quoteWithdrawAmounts_eq_ok hq
  obtain ⟨taken, htaken⟩ := exists_getElem?_of_length_eq hlength hasset
  have hheld := getElem?_balances hasset
  obtain ⟨rest, hrest, hsub⟩ := Checked.exists_getElem?_of_mapM_zip_eq_ok htentative hheld htaken
  have hval : rest.val + taken.val = asset.balance.val := Word.sub_eq_ok_iff.1 hsub
  obtain ⟨e, he, hsplit⟩ := hleads.exists_entry hasset hrest
  obtain ⟨adminBalance, hk, hadmin⟩ := getElem?_of_settleAssets_eq_ok hassets hasset he
  exact ⟨taken, e.balance, adminBalance, e.charge.adminFee, htaken, hk, by omega, hadmin⟩

/-- A proportional withdrawal that succeeds takes the same share of every balance. -/
theorem withdraw_eq_ok {p after : Pool} {amount : Amount} {shares : List Amount}
    (h : (p.withdraw amount).result = .ok (shares, after)) :
    ∃ tokenSupply assets, p.tokenSupply ≠ 0 ∧ tokenSupply.val + amount.val = p.tokenSupply.val ∧
      p.sharesOf amount = .ok shares ∧ p.payShares shares = .ok assets ∧
      after = { p with assets, tokenSupply } := by
  simp only [withdraw_eq, Logged.result_bind, Logged.result_lift, Logged.result_report,
    Logged.result_pure, Checked.bind_eq_ok_iff, ensure_eq_ok_iff, Word.sub_eq_ok_iff,
    exists_const] at h
  obtain ⟨hsome, tokenSupply, hsupply, shares, hshares, assets, hassets, -, hout⟩ := h
  obtain ⟨rfl, rfl⟩ := Prod.mk.inj (Except.ok.inj hout)
  exact ⟨tokenSupply, assets, hsome, hsupply, hshares, hassets, rfl⟩

/-- The share of each balance is that of the tokens in the supply, rounded down. -/
theorem exists_share_of_sharesOf_eq_ok {p : Pool} {amount : Amount} {shares : List Amount}
    (h : p.sharesOf amount = .ok shares) {k : Nat} {asset : Asset}
    (hasset : p.assets[k]? = some asset) :
    ∃ share : Amount, shares[k]? = some share ∧
      share.val = asset.balance.val * amount.val / p.tokenSupply.val := by
  obtain ⟨share, hshare, hdiv⟩ := Checked.exists_getElem?_of_mapM_eq_ok h (getElem?_balances hasset)
  exact ⟨share, hshare, (Word.mulDiv_eq_ok_iff.1 hdiv).2⟩

/-- What a proportional withdrawal pays and leaves of an asset: the balance falls by its share, which
is that of the tokens in the supply, rounded down. -/
theorem getElem?_of_withdraw_eq_ok {p after : Pool} {amount : Amount} {shares : List Amount}
    (h : (p.withdraw amount).result = .ok (shares, after)) {k : Nat} {asset : Asset}
    (hasset : p.assets[k]? = some asset) :
    ∃ share balance : Amount, shares[k]? = some share ∧
      share.val = asset.balance.val * amount.val / p.tokenSupply.val ∧
      after.assets[k]? = some { asset with balance } ∧
      balance.val + share.val = asset.balance.val := by
  obtain ⟨tokenSupply, assets, -, -, hshares, hassets, rfl⟩ := withdraw_eq_ok h
  obtain ⟨share, hshare, hval⟩ := exists_share_of_sharesOf_eq_ok hshares hasset
  obtain ⟨left, hleft, hstep⟩ := Checked.exists_getElem?_of_mapM_zip_eq_ok hassets hasset hshare
  simp only [Checked.bind_eq_ok_iff, Word.sub_eq_ok_iff, Checked.pure_eq_ok_iff] at hstep
  obtain ⟨balance, hsub, rfl⟩ := hstep
  exact ⟨share, balance, hshare, hval, hleft, hsub⟩

/-- A withdrawal of one asset that succeeds is a quote carried out, with the administrator's share
of its fee set aside. -/
theorem withdrawAsset_eq_ok {p after : Pool} {tokenAmount minimum out : Amount} {i : Nat}
    (h : (p.withdrawAsset tokenAmount i minimum).result = .ok (out, after)) :
    ∃ q asset adminFee balance tokenSupply adminBalance,
      (p.quoteWithdrawAsset tokenAmount i).result = .ok q ∧ minimum ≤ q.amount ∧ out = q.amount ∧
      p.assets[i]? = some asset ∧
      p.terms.adminFee.apply (q.feeFreeAmount.monus q.amount) = .ok adminFee ∧
      balance.val + adminFee.val + out.val = asset.balance.val ∧
      tokenSupply.val + tokenAmount.val = p.tokenSupply.val ∧
      adminBalance.val = asset.adminBalance.val + adminFee.val ∧
      after = { p with
        assets := p.assets.set i { asset with balance, adminBalance }, tokenSupply } := by
  simp only [withdrawAsset_eq, Logged.result_bind, Logged.result_lift, Logged.result_report,
    Logged.result_pure, Checked.bind_eq_ok_iff, ensure_eq_ok_iff, entry_eq_ok_iff,
    Word.sub_eq_ok_iff, Word.add_eq_ok_iff, exists_const] at h
  obtain ⟨q, hq, hminimum, adminFee, hfee, asset, hasset, rest, hrest, balance, hbalance,
    tokenSupply, hsupply, adminBalance, hadmin, -, hout⟩ := h
  obtain ⟨rfl, rfl⟩ := Prod.mk.inj (Except.ok.inj hout)
  exact ⟨q, asset, adminFee, balance, tokenSupply, adminBalance, hq, hminimum, rfl, hasset, hfee,
    by omega, hsupply, hadmin, rfl⟩

/-- What a withdrawal of one asset leaves of each: the balance of that asset falls by what is paid
out and by what is credited to the administrator, and nothing else changes. -/
theorem getElem?_of_withdrawAsset_eq_ok {p after : Pool} {tokenAmount minimum out : Amount}
    {i : Nat} (h : (p.withdrawAsset tokenAmount i minimum).result = .ok (out, after)) {k : Nat}
    {asset : Asset} (hasset : p.assets[k]? = some asset) :
    ∃ (balance adminBalance : Amount) (adminFee : Nat),
      after.assets[k]? = some ⟨balance, adminBalance, asset.scale⟩ ∧
      balance.val + adminFee + (if i = k then out.val else 0) = asset.balance.val ∧
      adminBalance.val = asset.adminBalance.val + adminFee := by
  obtain ⟨q, chosen, adminFee, balance, tokenSupply, adminBalance, -, -, -, hchosen, -, hbalance, -,
    hadmin, rfl⟩ := withdrawAsset_eq_ok h
  by_cases hi : i = k
  · subst hi
    obtain rfl : chosen = asset := Option.some.inj (hchosen.symm.trans hasset)
    obtain ⟨hk, -⟩ := List.getElem?_eq_some_iff.1 hasset
    refine ⟨balance, adminBalance, adminFee.val, ?_, by simpa using hbalance, hadmin⟩
    simp [hk]
  · refine ⟨asset.balance, asset.adminBalance, 0, ?_, by simp [hi], rfl⟩
    simp [List.getElem?_set_ne hi, hasset]

end StablePool.Pool
