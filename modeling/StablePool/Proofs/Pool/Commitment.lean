import Mathlib.Algebra.Group.Nat.Defs
import Mathlib.Control.Monad.Basic
import StablePool.Pool.Ledger
import StablePool.Proofs.Pool.SingleAsset

/-!
# Quotes are carried out

A command with a quote does nothing but compare the quote with the caller's minimum, form the new
number of tokens and the new balances, and credit the administrator. Of the differences it forms none
can be negative once there is a quote: a burn is a part of all tokens, and a payout and the
administrator's share of its fee are both taken from the larger of two payouts, neither of which
exceeds the balance. What is left to refuse are the caller's minimum, more tokens than there are, and
sums that are no amounts.

What a quote says is not stated here.
-/

namespace StablePool.Pool

variable {p after : Pool}

/-- Nothing changes but the balances of assets `i` and `j`. -/
structure ExchangesOnly (p : Pool) (i j : Nat) (after : Pool) : Prop where
  terms_eq : after.terms = p.terms
  scales_eq : after.scales = p.scales
  adminBalances_eq : after.adminBalances = p.adminBalances
  tokenSupply_eq : after.tokenSupply = p.tokenSupply
  length_balances : after.balances.length = p.balances.length
  balance_eq : ∀ k, k ≠ i → k ≠ j → after.balances[k]? = p.balances[k]?

/-- What a list of the assets holds once one balance is replaced, if it does not look at balances. -/
theorem map_assets_setBalance {α : Type} (view : Asset → α)
    (hview : ∀ (asset : Asset) (balance : Amount), view { asset with balance } = view asset)
    (p : Pool) (i : Nat) (balance : Amount) :
    (p.setBalance i balance).assets.map view = p.assets.map view := by
  apply List.ext_getElem?
  intro k
  rw [List.getElem?_map, List.getElem?_map, getElem?_setBalance]
  split
  · rw [Option.map_map]
    exact congrArg (fun f => (p.assets[k]?).map f) (funext fun asset => hview asset balance)
  · rfl

/-- Replacing two balances changes nothing else. -/
theorem exchangesOnly_setBalance (p : Pool) (i j : Nat) (first second : Amount) :
    p.ExchangesOnly i j ((p.setBalance i first).setBalance j second) where
  terms_eq := rfl
  scales_eq := by
    rw [scales, map_assets_setBalance _ fun _ _ => rfl, map_assets_setBalance _ fun _ _ => rfl,
      scales]
  adminBalances_eq := by
    rw [adminBalances, map_assets_setBalance _ fun _ _ => rfl,
      map_assets_setBalance _ fun _ _ => rfl, adminBalances]
  tokenSupply_eq := rfl
  length_balances := by simp [assetCount, setBalance]
  balance_eq k hi hj := by
    rw [balances, List.getElem?_map, getElem?_setBalance, getElem?_setBalance, if_neg hj.symm,
      if_neg hi.symm, balances, List.getElem?_map]

/-- An exchange whose quote meets the minimum is carried out. -/
theorem swapAtLeast_of_quote {i j : Nat} {dx minimum : Amount} {q : SwapQuote}
    (h : (p.quoteSwap i j dx).result = .ok q) (hminimum : minimum ≤ q.amountOut) :
    (p.swapAtLeast i j dx minimum).result =
      .ok (q.amountOut, (p.setBalance i q.balanceIn).setBalance j q.balanceOut) := by
  simp only [swapAtLeast_eq, Logged.result_bind, Logged.result_lift, Logged.result_report,
    Logged.result_pure, Checked.bind_eq_ok_iff, ensure_eq_ok_iff, exists_const]
  exact ⟨q, h, hminimum, trivial, rfl⟩

/-- What carrying out quoted entries makes of a pool: the balances are the quoted ones, and the
administrator is credited with the quoted shares. -/
structure Carries (p : Pool) (entries : List AssetQuote) (after : Pool) : Prop where
  terms_eq : after.terms = p.terms
  scales_eq : after.scales = p.scales
  balances_eq : after.balances = entries.map AssetQuote.balance
  adminBalance_eq : ∀ k, amountAt after.adminBalances k =
    amountAt p.adminBalances k + amountAt (entries.map fun e => e.charge.adminFee) k

/-- The administrator can be credited with the shares of quoted entries. -/
def HasRoomFor (p : Pool) (entries : List AssetQuote) : Prop :=
  ∀ quoted ∈ p.assets.zip entries,
    quoted.1.adminBalance.val + quoted.2.charge.adminFee.val < 2 ^ 128

instance (p : Pool) (entries : List AssetQuote) : Decidable (p.HasRoomFor entries) :=
  inferInstanceAs (Decidable (∀ quoted ∈ p.assets.zip entries, _))

/-- Entries are settled if the administrator can be credited with their shares. -/
theorem HasRoomFor.exists_settleAssets_eq_ok {entries : List AssetQuote}
    (hroom : p.HasRoomFor entries) : ∃ assets, p.settleAssets entries = .ok assets := by
  apply Checked.exists_mapM_eq_ok
  intro quoted hquoted
  obtain ⟨adminBalance, hadmin⟩ := Word.exists_add_eq_ok "admin balance"
    (hroom quoted hquoted)
  exact ⟨_, Checked.bind_eq_ok_iff.2 ⟨adminBalance, hadmin, rfl⟩⟩

/-- What is seen of settled assets, if each is seen to be a value of its asset and its entry. -/
theorem map_of_settleAssets_eq_ok {α : Type} (view : Asset → α) (value : Asset × AssetQuote → α)
    (hview : ∀ (asset : Asset) (e : AssetQuote) (adminBalance : Amount),
      view ⟨e.balance, adminBalance, asset.scale⟩ = value (asset, e))
    {entries : List AssetQuote} {assets : List Asset} (h : p.settleAssets entries = .ok assets) :
    assets.map view = (p.assets.zip entries).map value := by
  refine Checked.map_eq_of_mapM_eq_ok view value (fun quoted settled hstep => ?_) h
  simp only [Checked.bind_eq_ok_iff, Checked.pure_eq_ok_iff] at hstep
  obtain ⟨adminBalance, -, rfl⟩ := hstep
  exact hview quoted.1 quoted.2 adminBalance

/-- Settled entries are carried out, one for each asset. -/
theorem carries_of_settleAssets_eq_ok {entries : List AssetQuote} {assets : List Asset}
    (hlength : entries.length = p.assetCount) (h : p.settleAssets entries = .ok assets)
    (tokenSupply : Amount) : p.Carries entries { p with assets, tokenSupply } where
  terms_eq := rfl
  scales_eq := by
    have hfst : (p.assets.zip entries).map Prod.fst = p.assets :=
      List.map_fst_zip (Nat.le_of_eq hlength.symm)
    calc assets.map Asset.scale
        = (p.assets.zip entries).map (fun quoted => quoted.1.scale) :=
          map_of_settleAssets_eq_ok _ _ (fun _ _ _ => rfl) h
      _ = ((p.assets.zip entries).map Prod.fst).map Asset.scale := by rw [List.map_map]; rfl
      _ = p.assets.map Asset.scale := by rw [hfst]
  balances_eq := by
    have hsnd : (p.assets.zip entries).map Prod.snd = entries :=
      List.map_snd_zip (Nat.le_of_eq hlength)
    calc assets.map Asset.balance
        = (p.assets.zip entries).map (fun quoted => quoted.2.balance) :=
          map_of_settleAssets_eq_ok _ _ (fun _ _ _ => rfl) h
      _ = ((p.assets.zip entries).map Prod.snd).map AssetQuote.balance := by rw [List.map_map]; rfl
      _ = entries.map AssetQuote.balance := by rw [hsnd]
  adminBalance_eq k := by
    have hcount : assets.length = p.assetCount := by
      rw [Checked.length_eq_of_mapM_eq_ok h, List.length_zip, hlength, assetCount, Nat.min_self]
    cases hasset : p.assets[k]? with
    | none =>
      have hk : p.assetCount ≤ k := List.getElem?_eq_none_iff.1 hasset
      rw [amountAt_of_length_le, amountAt_of_length_le, amountAt_of_length_le]
      · rwa [List.length_map, hlength]
      · rwa [length_adminBalances]
      · rwa [length_adminBalances, assetCount, hcount]
    | some asset =>
      obtain ⟨e, he⟩ := exists_getElem?_of_length_eq hlength hasset
      obtain ⟨adminBalance, hsettled, hadmin⟩ := getElem?_of_settleAssets_eq_ok h hasset he
      have hcredited : (assets.map Asset.adminBalance)[k]? = some adminBalance := by
        rw [List.getElem?_map, hsettled, Option.map_some]
      have hshare : (entries.map fun e => e.charge.adminFee)[k]? = some e.charge.adminFee := by
        rw [List.getElem?_map, he, Option.map_some]
      rw [adminBalances, amountAt_of_getElem? hcredited, amountAt_of_getElem? hshare,
        amountAt_of_getElem? (getElem?_adminBalances hasset), hadmin]

/-- A course has one entry for each asset, if it has one tentative balance for each. -/
theorem LiquidityCourse.LeadsTo.length_entries {s : LiquidityCourse} {entries : List AssetQuote}
    (h : s.LeadsTo p entries) (hlength : s.tentative.length = p.assetCount) :
    entries.length = p.assetCount := by
  obtain ⟨rate, -, hcharges⟩ := Checked.bind_eq_ok_iff.1 h.charges_eq
  obtain ⟨step, hentries⟩ := h.entries_eq
  rw [Checked.length_eq_of_mapM_eq_ok hentries, List.length_zip,
    Checked.length_eq_of_mapM_eq_ok hcharges, List.length_zip, length_balances, hlength,
    Nat.min_self, Nat.min_self]

/-- A pass over the balances and amounts that are one for each asset yields one for each asset. -/
theorem length_of_mapM_zip_balances {α : Type} {f : Amount × Amount → Checked α}
    {amounts : List Amount} {results : List α} (hlength : amounts.length = p.assetCount)
    (h : (p.balances.zip amounts).mapM f = .ok results) : results.length = p.assetCount := by
  rw [Checked.length_eq_of_mapM_eq_ok h, List.length_zip, length_balances, hlength, Nat.min_self]

/-- A quoted deposit has one entry for each asset. -/
theorem length_entries_of_quoteDeposit {amounts : List Amount} {q : LiquidityQuote}
    (h : (p.quoteDeposit amounts).result = .ok q) : q.entries.length = p.assetCount := by
  obtain ⟨hlength, tentative, htentative, hcourse⟩ := quoteDeposit_eq_ok h
  have htentative := length_of_mapM_zip_balances hlength htentative
  obtain ⟨-, -, hentries⟩ | ⟨-, s, rfl, hleads, -⟩ := hcourse
  · rw [hentries, List.length_map, htentative]
  · exact hleads.length_entries htentative

/-- A quoted withdrawal of chosen amounts has one entry for each asset. -/
theorem length_entries_of_quoteWithdrawAmounts {amounts : List Amount} {q : LiquidityQuote}
    (h : (p.quoteWithdrawAmounts amounts).result = .ok q) : q.entries.length = p.assetCount := by
  obtain ⟨hlength, s, htentative, hleads, -⟩ := quoteWithdrawAmounts_eq_ok h
  exact hleads.length_entries (length_of_mapM_zip_balances hlength htentative)

/-- A deposit whose quote mints something and meets the minimum is carried out, if the tokens and
what is owed to the administrator remain amounts. -/
theorem depositAtLeast_of_quote {amounts : List Amount} {minimum : Amount} {q : LiquidityQuote}
    (h : (p.quoteDeposit amounts).result = .ok q) (hsome : q.tokenAmount ≠ 0)
    (hminimum : minimum ≤ q.tokenAmount)
    (hsupply : p.tokenSupply.val + q.tokenAmount.val < 2 ^ 128) (hroom : p.HasRoomFor q.entries) :
    ∃ after, (p.depositAtLeast amounts minimum).result = .ok (q.tokenAmount, after) ∧
      p.Carries q.entries after ∧
      after.tokenSupply.val = p.tokenSupply.val + q.tokenAmount.val := by
  obtain ⟨tokenSupply, hadd⟩ := Word.exists_add_eq_ok "lp supply" hsupply
  obtain ⟨assets, hassets⟩ := hroom.exists_settleAssets_eq_ok
  refine ⟨{ p with assets, tokenSupply }, ?_,
    carries_of_settleAssets_eq_ok (length_entries_of_quoteDeposit h) hassets tokenSupply,
    Word.add_eq_ok_iff.1 hadd⟩
  simp only [depositAtLeast_eq, Logged.result_bind, Logged.result_lift, Logged.result_report,
    Logged.result_pure, Checked.bind_eq_ok_iff, ensure_eq_ok_iff, exists_const]
  exact ⟨q, h, hsome, hminimum, tokenSupply, hadd, assets, hassets, trivial, rfl⟩

/-- A quoted burn is a part of the tokens. -/
theorem burn_le_tokenSupply {amounts : List Amount} {q : LiquidityQuote}
    (h : (p.quoteWithdrawAmounts amounts).result = .ok q) : q.tokenAmount ≤ p.tokenSupply := by
  obtain ⟨-, s, -, -, shrink, hshrink, hburn⟩ := quoteWithdrawAmounts_eq_ok h
  obtain ⟨hpos, hburn⟩ := Word.mulDiv_eq_ok_iff.1 hburn
  rw [Word.le_iff, hburn]
  apply Nat.div_le_of_le_mul
  rw [Nat.mul_comm s.d0.val]
  exact Nat.mul_le_mul_left _ (by omega)

/-- A withdrawal of chosen amounts that is quoted is carried out, if what is owed to the administrator
remains an amount. -/
theorem withdrawAmounts_of_quote {amounts : List Amount} {q : LiquidityQuote}
    (h : (p.quoteWithdrawAmounts amounts).result = .ok q) (hroom : p.HasRoomFor q.entries) :
    ∃ after, (p.withdrawAmounts amounts).result = .ok (q.tokenAmount, after) ∧
      p.Carries q.entries after ∧
      after.tokenSupply.val + q.tokenAmount.val = p.tokenSupply.val := by
  obtain ⟨tokenSupply, hsub⟩ :=
    Word.exists_sub_eq_ok "burn exceeds lp supply" (burn_le_tokenSupply h)
  obtain ⟨assets, hassets⟩ := hroom.exists_settleAssets_eq_ok
  refine ⟨{ p with assets, tokenSupply }, ?_,
    carries_of_settleAssets_eq_ok (length_entries_of_quoteWithdrawAmounts h) hassets tokenSupply,
    Word.sub_eq_ok_iff.1 hsub⟩
  simp only [withdrawAmounts_eq, Logged.result_bind, Logged.result_lift, Logged.result_report,
    Logged.result_pure, Checked.bind_eq_ok_iff, exists_const]
  exact ⟨q, h, tokenSupply, hsub, assets, hassets, trivial, rfl⟩

/-- The administrator's share of the fee on a withdrawal of one asset. -/
def skimmed (p : Pool) (q : AssetWithdrawal) : Nat :=
  (q.feeFreeAmount.val - q.amount.val) * p.terms.adminFee.numerator.val / FeeRate.denominator

/-- Only asset `i` changes, by a payout of `paid` and a share of `share` that is credited to the
administrator. -/
structure PaysOnly (p : Pool) (i paid share : Nat) (after : Pool) : Prop where
  terms_eq : after.terms = p.terms
  scales_eq : after.scales = p.scales
  balance_eq : ∀ k, amountAt after.balances k + (if k = i then paid + share else 0) =
    amountAt p.balances k
  adminBalance_eq : ∀ k, amountAt after.adminBalances k =
    amountAt p.adminBalances k + if k = i then share else 0

/-- The amounts at an index once the entry at another or the same index is replaced. -/
theorem amountAt_set {amounts : List Amount} {i : Nat} (hi : i < amounts.length) (amount : Amount)
    (k : Nat) : amountAt (amounts.set i amount) k =
      if k = i then amount.val else amountAt amounts k := by
  by_cases hk : k = i
  · subst hk
    rw [if_pos rfl, amountAt_of_getElem? (List.getElem?_set_self hi)]
  · rw [if_neg hk, amountAt, List.getElem?_set_ne (Ne.symm hk), ← amountAt]

/-- Replacing one asset by what a payout and a share leave of it changes nothing else. -/
theorem paysOnly_set {i paid share : Nat} {asset : Asset} {balance adminBalance : Amount}
    (hasset : p.assets[i]? = some asset) (hbalance : balance.val + (paid + share) = asset.balance.val)
    (hadmin : adminBalance.val = asset.adminBalance.val + share) (tokenSupply : Amount) :
    p.PaysOnly i paid share { p with
      assets := p.assets.set i { asset with balance, adminBalance }, tokenSupply } := by
  obtain ⟨hi, hget⟩ := List.getElem?_eq_some_iff.1 hasset
  refine ⟨rfl, ?_, fun k => ?_, fun k => ?_⟩
  · change (p.assets.set i _).map Asset.scale = p.assets.map Asset.scale
    have hself : (p.assets.map Asset.scale).set i asset.scale = p.assets.map Asset.scale := by
      rw [← hget, ← List.getElem_map (f := Asset.scale) (h := by simpa using hi)]
      exact List.set_getElem_self _
    rw [List.map_set, hself]
  · change amountAt ((p.assets.set i _).map Asset.balance) k + _ = amountAt p.balances k
    rw [List.map_set, ← balances, amountAt_set (by simpa [assetCount] using hi)]
    by_cases hk : k = i
    · rw [if_pos hk, if_pos hk, hk, amountAt_of_getElem? (getElem?_balances hasset), hbalance]
    · rw [if_neg hk, if_neg hk, Nat.add_zero]
  · change amountAt ((p.assets.set i _).map Asset.adminBalance) k = amountAt p.adminBalances k + _
    rw [List.map_set, ← adminBalances, amountAt_set (by simpa [assetCount] using hi)]
    by_cases hk : k = i
    · rw [if_pos hk, if_pos hk, hk, amountAt_of_getElem? (getElem?_adminBalances hasset), hadmin]
    · rw [if_neg hk, if_neg hk, Nat.add_zero]

/-- A payout and the administrator's share of its fee are together a part of the balance: the share is
taken from what the payout falls short of the payout free of charge. -/
theorem amount_add_skimmed_le_of_quote {tokenAmount : Amount} {i : Nat} {q : AssetWithdrawal}
    (h : (p.quoteWithdrawAsset tokenAmount i).result = .ok q) :
    q.amount.val + p.skimmed q ≤ amountAt p.balances i := by
  obtain ⟨s, hs⟩ := exists_course_of_quoteWithdrawAsset_eq_ok h
  rw [amountAt_of_getElem? (getElem?_balances hs.asset_eq)]
  have hshare : p.skimmed q ≤ q.feeFreeAmount.val - q.amount.val :=
    p.terms.adminFee_isValid.charge_le _
  have hamount := hs.amount_le
  have hfree := hs.feeFreeAmount_le
  omega

/-- A withdrawal of one asset whose quote meets the minimum is carried out, if there are tokens enough
and what is owed to the administrator remains an amount. -/
theorem withdrawAsset_of_quote {tokenAmount minimum : Amount} {i : Nat} {q : AssetWithdrawal}
    (h : (p.quoteWithdrawAsset tokenAmount i).result = .ok q) (htokens : tokenAmount ≤ p.tokenSupply)
    (hminimum : minimum ≤ q.amount)
    (hroom : amountAt p.adminBalances i + p.skimmed q < 2 ^ 128) :
    ∃ after, (p.withdrawAsset tokenAmount i minimum).result = .ok (q.amount, after) ∧
      p.PaysOnly i q.amount.val (p.skimmed q) after ∧
      after.tokenSupply.val + tokenAmount.val = p.tokenSupply.val := by
  have hpaid := amount_add_skimmed_le_of_quote h
  obtain ⟨s, hs⟩ := exists_course_of_quoteWithdrawAsset_eq_ok h
  have hasset := hs.asset_eq
  rw [amountAt_of_getElem? (getElem?_adminBalances hasset)] at hroom
  rw [amountAt_of_getElem? (getElem?_balances hasset)] at hpaid
  obtain ⟨adminFee, hadminFee, -⟩ :=
    p.terms.adminFee_isValid.exists_apply_eq_ok (q.feeFreeAmount.monus q.amount)
  have hshare : adminFee.val = p.skimmed q := FeeRate.apply_eq_ok_iff.1 hadminFee
  rw [← hshare] at hpaid hroom ⊢
  obtain ⟨rest, hrest⟩ := Word.exists_sub_eq_ok
    "single asset withdrawal exceeds balance" (a := s.asset.balance) (b := q.amount)
    (by omega)
  have hrestval := Word.sub_eq_ok_iff.1 hrest
  obtain ⟨balance, hbalance⟩ := Word.exists_sub_eq_ok
    "single asset withdrawal exceeds balance" (a := rest) (b := adminFee) (by omega)
  have hbalanceval := Word.sub_eq_ok_iff.1 hbalance
  obtain ⟨tokenSupply, hsupply⟩ :=
    Word.exists_sub_eq_ok "burn exceeds lp supply" (Word.le_iff.1 htokens)
  obtain ⟨adminBalance, hadmin⟩ := Word.exists_add_eq_ok "admin balance" hroom
  have hleft : balance.val + (q.amount.val + adminFee.val) = s.asset.balance.val := by omega
  refine ⟨_, ?_, paysOnly_set hasset hleft (Word.add_eq_ok_iff.1 hadmin) tokenSupply,
    Word.sub_eq_ok_iff.1 hsupply⟩
  simp only [withdrawAsset_eq, Logged.result_bind, Logged.result_lift, Logged.result_report,
    Logged.result_pure, Checked.bind_eq_ok_iff, ensure_eq_ok_iff, entry_eq_ok_iff, exists_const]
  exact ⟨q, h, hminimum, adminFee, hadminFee, s.asset, hasset, rest, hrest, balance, hbalance,
    tokenSupply, hsupply, adminBalance, hadmin, trivial, rfl⟩

/-- A command with a quote yields what the quote says, and commits it and nothing else, unless the
caller's minimum, the number of tokens or the size of a sum stands against it; and a command whose
quote is refused is refused with the same cause. -/
theorem quoted_commands_commit (p : Pool) :
    (∀ (i j : Nat) (dx minimum : Amount),
      (∀ q, (p.quoteSwap i j dx).result = .ok q → minimum ≤ q.amountOut →
        ∃ after, (p.swapAtLeast i j dx minimum).result = .ok (q.amountOut, after) ∧
          p.ExchangesOnly i j after ∧
          after.balances = (p.balances.set i q.balanceIn).set j q.balanceOut) ∧
      ∀ cause, (p.quoteSwap i j dx).result = .error cause →
        (p.swapAtLeast i j dx minimum).result = .error cause) ∧
    (∀ (amounts : List Amount) (minimum : Amount),
      (∀ q, (p.quoteDeposit amounts).result = .ok q → 1 ≤ q.tokenAmount.val →
        minimum ≤ q.tokenAmount → p.tokenSupply.val + q.tokenAmount.val < 2 ^ 128 →
        p.HasRoomFor q.entries →
        ∃ after, (p.depositAtLeast amounts minimum).result = .ok (q.tokenAmount, after) ∧
          p.Carries q.entries after ∧
          after.tokenSupply.val = p.tokenSupply.val + q.tokenAmount.val) ∧
      ∀ cause, (p.quoteDeposit amounts).result = .error cause →
        (p.depositAtLeast amounts minimum).result = .error cause) ∧
    (∀ amounts : List Amount,
      (∀ q, (p.quoteWithdrawAmounts amounts).result = .ok q →
        q.tokenAmount ≤ p.tokenSupply ∧
        (p.HasRoomFor q.entries →
          ∃ after, (p.withdrawAmounts amounts).result = .ok (q.tokenAmount, after) ∧
            p.Carries q.entries after ∧
            after.tokenSupply.val + q.tokenAmount.val = p.tokenSupply.val)) ∧
      ∀ cause, (p.quoteWithdrawAmounts amounts).result = .error cause →
        (p.withdrawAmounts amounts).result = .error cause) ∧
    (∀ (tokenAmount minimum : Amount) (i : Nat),
      (∀ q, (p.quoteWithdrawAsset tokenAmount i).result = .ok q →
        q.amount.val + p.skimmed q ≤ amountAt p.balances i ∧
        (tokenAmount ≤ p.tokenSupply → minimum ≤ q.amount →
          amountAt p.adminBalances i + p.skimmed q < 2 ^ 128 →
          ∃ after, (p.withdrawAsset tokenAmount i minimum).result = .ok (q.amount, after) ∧
            p.PaysOnly i q.amount.val (p.skimmed q) after ∧
            after.tokenSupply.val + tokenAmount.val = p.tokenSupply.val)) ∧
      ∀ cause, (p.quoteWithdrawAsset tokenAmount i).result = .error cause →
        (p.withdrawAsset tokenAmount i minimum).result = .error cause) := by
  refine ⟨fun i j dx minimum => ⟨fun q hq hminimum => ?_, fun cause h => ?_⟩,
    fun amounts minimum => ⟨fun q hq hsome hminimum hsupply hroom => ?_, fun cause h => ?_⟩,
    fun amounts => ⟨fun q hq => ⟨burn_le_tokenSupply hq, fun hroom => ?_⟩, fun cause h => ?_⟩,
    fun tokenAmount minimum i => ⟨fun q hq =>
      ⟨amount_add_skimmed_le_of_quote hq, fun htokens hminimum hroom => ?_⟩, fun cause h => ?_⟩⟩
  · refine ⟨_, swapAtLeast_of_quote hq hminimum, exchangesOnly_setBalance p i j _ _, ?_⟩
    rw [balances_setBalance, balances_setBalance]
  · rw [swapAtLeast_eq]
    exact Logged.result_bind_of_error h _
  · have hsome : q.tokenAmount ≠ 0 := mt Word.eq_zero_iff.1 (Nat.ne_of_gt hsome)
    exact depositAtLeast_of_quote hq hsome hminimum hsupply hroom
  · rw [depositAtLeast_eq]
    exact Logged.result_bind_of_error h _
  · exact withdrawAmounts_of_quote hq hroom
  · rw [withdrawAmounts_eq]
    exact Logged.result_bind_of_error h _
  · exact withdrawAsset_of_quote hq htokens hminimum hroom
  · rw [withdrawAsset_eq]
    exact Logged.result_bind_of_error h _

/-- An uneven pool of two assets with 18 and 6 decimals: all four kinds of quotes are carried out, and
an exchange of an asset for itself is refused as its quote is. -/
theorem quoted_commands_commit_mixed_decimals :
    let p : Pool := {
      terms := {
        amplification := ⟨.lit 200, by decide⟩
        fee := ⟨.lit 4⟩
        adminFee := ⟨.lit 5000⟩
        maxIterations := Curve.defaultBound
        fee_isValid := by decide
        adminFee_isValid := by decide }
      assets := [⟨.lit (10 ^ 18), .lit 7, .one⟩, ⟨.lit 3000000, 0, ⟨.lit (10 ^ 30), by decide⟩⟩]
      tokenSupply := .lit (4 * 10 ^ 18) }
    let dx : Amount := .lit (10 ^ 17)
    let paid : List Amount := [.lit (5 * 10 ^ 17), .lit 100000]
    let taken : List Amount := [.lit (10 ^ 17), .lit 1000000]
    let share : Amount := .lit (10 ^ 18)
    let exchange : SwapQuote := {
      amountOut := .lit 100748
      fee := .lit 40
      balanceIn := .lit (11 * 10 ^ 17)
      balanceOut := .lit 2899251 }
    let deposited : LiquidityQuote := {
      tokenAmount := .lit 602093301359281451
      entries := [
        ⟨.lit 1499965055834155020, ⟨.lit 69888331689961, .lit 34944165844980⟩⟩,
        ⟨.lit 3099965, ⟨.lit 70, .lit 35⟩⟩] }
    let withdrawn : LiquidityQuote := {
      tokenAmount := .lit 1098881184570173494
      entries := [
        ⟨.lit 899982529721317458, ⟨.lit 34940557365085, .lit 17470278682542⟩⟩,
        ⟨.lit 1999983, ⟨.lit 35, .lit 17⟩⟩] }
    let payout : AssetWithdrawal := ⟨.lit 1001451, .lit 1001552⟩
    (∃ after, (p.swapAtLeast 0 1 dx exchange.amountOut).result = .ok (exchange.amountOut, after) ∧
        p.ExchangesOnly 0 1 after ∧
        after.balances = (p.balances.set 0 exchange.balanceIn).set 1 exchange.balanceOut) ∧
      (p.swapAtLeast 0 0 dx 0).result = .error (.identicalAssets 0) ∧
      (∃ after, (p.depositAtLeast paid deposited.tokenAmount).result =
          .ok (deposited.tokenAmount, after) ∧ p.Carries deposited.entries after ∧
        after.tokenSupply.val = p.tokenSupply.val + deposited.tokenAmount.val) ∧
      (∃ after, (p.withdrawAmounts taken).result = .ok (withdrawn.tokenAmount, after) ∧
        p.Carries withdrawn.entries after ∧
        after.tokenSupply.val + withdrawn.tokenAmount.val = p.tokenSupply.val) ∧
      ∃ after, (p.withdrawAsset share 1 payout.amount).result = .ok (payout.amount, after) ∧
        p.PaysOnly 1 payout.amount.val (p.skimmed payout) after ∧
        after.tokenSupply.val + share.val = p.tokenSupply.val := by
  intro p dx paid taken share exchange deposited withdrawn payout
  obtain ⟨hswap, hdeposit, hamounts, hasset⟩ := quoted_commands_commit p
  have hexchange : (p.quoteSwap 0 1 dx).result = .ok exchange := by decide +kernel
  have hidentical : (p.quoteSwap 0 0 dx).result = .error (.identicalAssets 0) := by decide +kernel
  have hdeposited : (p.quoteDeposit paid).result = .ok deposited := by decide +kernel
  have hwithdrawn : (p.quoteWithdrawAmounts taken).result = .ok withdrawn := by decide +kernel
  have hpayout : (p.quoteWithdrawAsset share 1).result = .ok payout := by decide +kernel
  refine ⟨(hswap 0 1 dx _).1 exchange hexchange (Nat.le_refl _),
    (hswap 0 0 dx 0).2 _ hidentical,
    (hdeposit paid _).1 deposited hdeposited ?_ (Nat.le_refl _) ?_ ?_,
    ((hamounts taken).1 withdrawn hwithdrawn).2 ?_,
    ((hasset share _ 1).1 payout hpayout).2 ?_ (Nat.le_refl _) ?_⟩
  all_goals decide

end StablePool.Pool
