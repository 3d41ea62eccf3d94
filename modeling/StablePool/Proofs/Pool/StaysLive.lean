import Mathlib.Control.Monad.Basic
import StablePool.Proofs.Curve.RootBracket
import StablePool.Proofs.Pool.Frame
import StablePool.Proofs.Pool.Liveness
import StablePool.Proofs.Pool.SingleAsset

/-!
# Whether a live pool stays computable

Amounts are rounded down wherever native and price-scaled units are converted. If a native unit
stands for less than a price-scaled one, the last native units of an asset can stand for nothing; if
it stands for more, the last price-scaled units of an asset can be less than a native one. So a
withdrawal or an exchange can leave a live pool stranded. For each command and each asset there is a
circumstance that spares the asset: the command then leaves it positive, or every asset at zero.

An exchange spares its output asset if what it keeps of it, the solved balance with the fee, reaches
the grain of the scale. It always does so if the fee on the whole balance does.

What becomes of an asset that is not spared is not stated here.
-/

namespace StablePool

namespace Pool

variable {p after : Pool}

/-- A deposit into a live pool leaves it live: the balances net of fees have an invariant that has
not fallen, and more than these stays in the pool. -/
theorem isLive_of_depositAtLeast {amounts : List Amount} {minimum mint : Amount} (hlive : p.IsLive)
    (h : (p.depositAtLeast amounts minimum).result = .ok (mint, after)) : after.IsLive := by
  have hscales := scales_of_depositAtLeast h
  obtain ⟨q, tokenSupply, assets, hq, -, -, -, -, hassets, rfl⟩ := depositAtLeast_eq_ok h
  obtain ⟨hlength, tentative, htentative, hcourse⟩ := quoteDeposit_eq_ok hq
  refine isLive_of_forall hscales fun k asset hasset => ?_
  obtain ⟨paid, hpaid⟩ := exists_getElem?_of_length_eq hlength hasset
  obtain ⟨sum, hsum, hadd⟩ :=
    Checked.exists_getElem?_of_mapM_zip_eq_ok htentative (getElem?_balances hasset) hpaid
  have hentry : ∃ e, q.entries[k]? = some e ∧ 0 < asset.scale.scaledUnits e.balance.val := by
    obtain ⟨-, -, hentries⟩ | ⟨-, s, rfl, hleads, growth, hgrowth, -⟩ := hcourse
    · have hle : asset.balance.val ≤ sum.val := Word.add_eq_ok_iff.1 hadd ▸ Nat.le_add_right _ _
      exact ⟨⟨sum, ⟨0, 0⟩⟩, by simp [hentries, hsum],
        Nat.lt_of_lt_of_le (hlive.pos hasset) (asset.scale.scaledUnits_mono hle)⟩
    · obtain ⟨net, e, hnet, he, hsplits⟩ := hleads.exists_splitsFee hasset hsum
      have hd0 := hlive.invariant_pos hleads.invariant_eq
      have hpositive : p.ScaledPositive s.net := by
        refine (scaledZero_or_scaledPositive hleads.final_eq).resolve_left fun ⟨_, hd2⟩ => ?_
        omega
      exact ⟨e, he, Nat.lt_of_lt_of_le (hpositive k asset net hasset hnet)
        (asset.scale.scaledUnits_mono (hsplits.net_le p.terms.adminFee_isValid))⟩
  obtain ⟨e, he, hpos⟩ := hentry
  obtain ⟨adminBalance, hk, -⟩ := getElem?_of_settleAssets_eq_ok hassets hasset he
  exact ⟨_, hk, hpos⟩

/-- Every native unit of asset `k` stands for at least one price-scaled unit. -/
def IsFine (p : Pool) (k : Nat) : Prop :=
  ∀ asset : Asset, p.assets[k]? = some asset → base ≤ asset.scale.factor

/-- The circumstances in which a proportional withdrawal leaves something of asset `k`, or nothing of
any: it burns all tokens, or a native unit stands for something, or the share of the tokens that remain
reaches a price-scaled unit. -/
def SparesShare (p : Pool) (amount : Amount) (k : Nat) : Prop :=
  amount = p.tokenSupply ∨ p.IsFine k ∨
    ∀ asset : Asset, p.assets[k]? = some asset →
      p.tokenSupply.val ≤ asset.scaledBalance * (p.tokenSupply.val - amount.val)

/-- A proportional withdrawal of all tokens drains a pool; one of fewer leaves something of every
balance that it spares. -/
theorem isDrained_or_pos_of_withdraw {amount : Amount} {shares : List Amount} (hlive : p.IsLive)
    (h : (p.withdraw amount).result = .ok (shares, after)) :
    after.IsDrained ∨ ∀ (k : Nat) (asset : Asset), after.assets[k]? = some asset →
      p.SparesShare amount k → 0 < asset.scaledBalance := by
  have hscales := scales_of_withdraw h
  obtain ⟨tokenSupply, assets, hsome, hsupply, -⟩ := withdraw_eq_ok h
  have hsome : 0 < p.tokenSupply.val := Nat.pos_of_ne_zero (mt Word.eq_zero_iff.2 hsome)
  rcases Nat.lt_or_ge amount.val p.tokenSupply.val with hfewer | hall
  · refine .inr (forall_of_scales_eq hscales fun k asset hasset => ?_)
    obtain ⟨share, balance, -, hval, hk, hsub⟩ := getElem?_of_withdraw_eq_ok h hasset
    have hshare : share.val * p.tokenSupply.val ≤ asset.balance.val * amount.val :=
      hval ▸ Nat.div_mul_le_self _ _
    have hrest : asset.balance.val * (p.tokenSupply.val - amount.val) ≤
        balance.val * p.tokenSupply.val := by
      rw [Nat.mul_sub, ← hsub, Nat.add_mul, hsub]
      omega
    refine ⟨_, hk, ?_⟩
    rintro (hburned | hfine | hunit)
    · exact absurd (congrArg Word.val hburned) (Nat.ne_of_lt hfewer)
    · have hbalance : 0 < asset.balance.val := PriceScale.pos_of_scaledUnits_pos (hlive.pos hasset)
      have hpos : 0 < balance.val * p.tokenSupply.val :=
        Nat.lt_of_lt_of_le (Nat.mul_pos hbalance (Nat.sub_pos_of_lt hfewer)) hrest
      exact PriceScale.scaledUnits_pos_of_base_le (hfine asset hasset) (Nat.pos_of_mul_pos_right hpos)
    · exact asset.scale.scaledUnits_pos_of_part hsome hrest (hunit asset hasset)
  · have heq : amount.val = p.tokenSupply.val := by omega
    refine .inl (isDrained_of_forall hscales fun k asset hasset => ?_)
    obtain ⟨share, balance, -, hval, hk, hsub⟩ := getElem?_of_withdraw_eq_ok h hasset
    rw [heq, Nat.mul_div_cancel _ hsome] at hval
    have hzero : balance.val = 0 := by omega
    refine ⟨_, hk, ?_⟩
    rw [Asset.scaledBalance, hzero, PriceScale.scaledUnits_zero]

/-- A withdrawal of chosen amounts settles every asset between its balance net of fees and its
tentative one. If nothing of the invariant is left, it burns all tokens. -/
theorem exists_settled_of_withdrawAmounts {amounts : List Amount} {burn : Amount}
    (h : (p.withdrawAmounts amounts).result = .ok (burn, after)) :
    ∃ (q : LiquidityQuote) (s : LiquidityCourse),
      (p.quoteWithdrawAmounts amounts).result = .ok q ∧
      (s.d2.val = 0 → q.tokenAmount = p.tokenSupply) ∧
      (p.invariantOf s.tentative).result = .ok s.d1 ∧ (p.invariantOf s.net).result = .ok s.d2 ∧
      ∀ (k : Nat) (asset : Asset), p.assets[k]? = some asset →
        ∃ tentative net e asset', s.tentative[k]? = some tentative ∧ s.net[k]? = some net ∧
          SplitsFee p.terms.adminFee tentative net e ∧ after.assets[k]? = some asset' ∧
          asset'.scaledBalance = asset.scale.scaledUnits e.balance.val := by
  obtain ⟨q, tokenSupply, assets, hq, -, -, hassets, rfl⟩ := withdrawAmounts_eq_ok h
  obtain ⟨hlength, s, htentative, hleads, shrink, hshrink, hburn⟩ := quoteWithdrawAmounts_eq_ok hq
  refine ⟨q, s, hq, fun hnone => ?_, hleads.tentative_eq, hleads.final_eq,
    fun k asset hasset => ?_⟩
  · obtain ⟨hd0, hval⟩ := Word.mulDiv_eq_ok_iff.1 hburn
    rw [show shrink.val = s.d0.val by omega, Nat.mul_div_cancel _ hd0] at hval
    exact Word.ext hval
  · obtain ⟨taken, htaken⟩ := exists_getElem?_of_length_eq hlength hasset
    obtain ⟨rest, hrest, -⟩ :=
      Checked.exists_getElem?_of_mapM_zip_eq_ok htentative (getElem?_balances hasset) htaken
    obtain ⟨net, e, hnet, he, hsplits⟩ := hleads.exists_splitsFee hasset hrest
    obtain ⟨adminBalance, hk, -⟩ := getElem?_of_settleAssets_eq_ok hassets hasset he
    exact ⟨rest, net, e, _, hrest, hnet, hsplits, hk, rfl⟩

/-- The circumstances in which a withdrawal of chosen amounts leaves something of asset `k`, or nothing
of any: the administrator takes nothing of the fees or all of them, or it burns fewer than all tokens,
or a native unit stands for something. -/
def SparesAmounts (p : Pool) (amounts : List Amount) (k : Nat) : Prop :=
  p.terms.adminFee = .zero ∨ p.terms.adminFee = .full ∨
    (∀ q, (p.quoteWithdrawAmounts amounts).result = .ok q → q.tokenAmount ≠ p.tokenSupply) ∨
    p.IsFine k

/-- A withdrawal of chosen amounts leaves a pool drained, or something of every balance that it spares:
the tentative balances and those net of fees both have an invariant. -/
theorem isDrained_or_pos_of_withdrawAmounts {amounts : List Amount} {burn : Amount}
    (h : (p.withdrawAmounts amounts).result = .ok (burn, after)) :
    after.IsDrained ∨ ∀ (k : Nat) (asset : Asset), after.assets[k]? = some asset →
      p.SparesAmounts amounts k → 0 < asset.scaledBalance := by
  have hscales := scales_of_withdrawAmounts h
  obtain ⟨q, s, hq, hburn, htentative, hnet, hsettled⟩ := exists_settled_of_withdrawAmounts h
  rcases scaledZero_or_scaledPositive hnet with ⟨hzero, hd2⟩ | hpositive
  · rcases scaledZero_or_scaledPositive htentative with ⟨hnone, -⟩ | hsome
    · refine .inl (isDrained_of_forall hscales fun k asset hasset => ?_)
      obtain ⟨tentative, net, e, asset', ht, -, hsplits, hafter, hval⟩ := hsettled k asset hasset
      have hle : e.balance.val ≤ tentative.val := hsplits.balance_add ▸ Nat.le_add_right _ _
      have hbound := asset.scale.scaledUnits_mono hle
      rw [hnone k asset tentative hasset ht] at hbound
      exact ⟨asset', hafter, by omega⟩
    · by_cases hfull : p.terms.adminFee = .full
      · -- The administrator takes the whole fee, so that the net balances are left.
        refine .inl (isDrained_of_forall hscales fun k asset hasset => ?_)
        obtain ⟨tentative, net, e, asset', -, hn, hsplits, hafter, hval⟩ := hsettled k asset hasset
        rw [hfull] at hsplits
        rw [hsplits.balance_eq_of_full, hzero k asset net hasset hn] at hval
        exact ⟨asset', hafter, hval⟩
      · refine .inr (forall_of_scales_eq hscales fun k asset hasset => ?_)
        obtain ⟨tentative, net, e, asset', ht, -, hsplits, hafter, hval⟩ := hsettled k asset hasset
        have hpos := hsome k asset tentative hasset ht
        refine ⟨asset', hafter, ?_⟩
        rw [hval]
        rintro (hnothing | hall | hfewer | hfine)
        · rw [hnothing] at hsplits
          rw [hsplits.balance_eq_of_zero]
          exact hpos
        · exact absurd hall hfull
        · exact absurd (hburn hd2) (hfewer q hq)
        · exact PriceScale.scaledUnits_pos_of_base_le (hfine asset hasset)
            (hsplits.balance_pos p.terms.adminFee_isValid hfull
              (PriceScale.pos_of_scaledUnits_pos hpos))
  · refine .inr (forall_of_scales_eq hscales fun k asset hasset => ?_)
    obtain ⟨tentative, net, e, asset', -, hn, hsplits, hafter, hval⟩ := hsettled k asset hasset
    refine ⟨asset', hafter, fun _ => ?_⟩
    rw [hval]
    exact Nat.lt_of_lt_of_le (hpositive k asset net hasset hn)
      (asset.scale.scaledUnits_mono (hsplits.net_le p.terms.adminFee_isValid))

/-- The circumstances in which the administrator's share of the fee on a withdrawal of asset `i` alone
cannot take the rest of the asset: there is none, or the payout free of charge would leave something,
or the share is not the whole and every native unit stands for something. -/
def SparesRest (p : Pool) (tokenAmount : Amount) (i : Nat) : Prop :=
  p.terms.adminFee = .zero ∨
    (∀ (q : AssetWithdrawal) (asset : Asset), (p.quoteWithdrawAsset tokenAmount i).result = .ok q →
      p.assets[i]? = some asset →
      0 < asset.scale.scaledUnits (asset.balance.val - q.feeFreeAmount.val)) ∨
    p.terms.adminFee ≠ .full ∧ p.IsFine i

/-- What a withdrawal of one asset pays for itself always leaves something of the asset. -/
theorem WithdrawalCourse.LeadsTo.rest_pos {s : WithdrawalCourse} {tokenAmount : Amount} {i : Nat}
    {q : AssetWithdrawal} (hs : s.LeadsTo p tokenAmount i q) :
    0 < s.asset.scale.scaledUnits (s.asset.balance.val - q.amount.val) := by
  rw [hs.val_amount]
  apply PriceScale.scaledUnits_sub_nativeUnits_pos
  have hleft := hs.left_le
  have hx := hs.val_x
  have hy := hs.y_lt_left
  omega

/-- What is left of the asset after the payout and the administrator's share of the fee is positive,
if the share cannot take the rest. -/
theorem WithdrawalCourse.LeadsTo.settled_pos {s : WithdrawalCourse} {tokenAmount : Amount} {i : Nat}
    {q : AssetWithdrawal} (hs : s.LeadsTo p tokenAmount i q)
    (hq : (p.quoteWithdrawAsset tokenAmount i).result = .ok q) (hsafe : p.SparesRest tokenAmount i)
    {balance adminFee : Nat}
    (hfee : adminFee = (q.feeFreeAmount.val - q.amount.val) * p.terms.adminFee.numerator.val /
      FeeRate.denominator)
    (hbalance : balance + adminFee + q.amount.val = s.asset.balance.val) :
    0 < s.asset.scale.scaledUnits balance := by
  have hrest := hs.rest_pos
  have hshare := p.terms.adminFee_isValid.charge_le (q.feeFreeAmount.val - q.amount.val)
  rw [← hfee] at hshare
  rcases Nat.lt_or_ge q.amount.val q.feeFreeAmount.val with hmore | hless
  · rcases hsafe with hnothing | hspare | ⟨hfull, hfine⟩
    · rw [hnothing, show FeeRate.zero.numerator.val = 0 from rfl, Nat.mul_zero,
        Nat.zero_div] at hfee
      rwa [show balance = s.asset.balance.val - q.amount.val by omega]
    · refine Nat.lt_of_lt_of_le (hspare q s.asset hq hs.asset_eq) (PriceScale.scaledUnits_mono _ ?_)
      omega
    · have hfree := hs.feeFreeAmount_le
      have hlost := p.terms.adminFee_isValid.charge_lt hfull (Nat.sub_pos_of_lt hmore)
      rw [← hfee] at hlost
      exact PriceScale.scaledUnits_pos_of_base_le (hfine s.asset hs.asset_eq) (by omega)
  · -- Without a fee there is nothing for the administrator.
    rwa [show balance = s.asset.balance.val - q.amount.val by omega]

/-- A withdrawal of one asset leaves every asset of a live pool positive, unless the administrator's
share takes the rest of that one. -/
theorem scaledBalance_pos_of_withdrawAsset {tokenAmount minimum out : Amount} {i : Nat}
    (hlive : p.IsLive) (h : (p.withdrawAsset tokenAmount i minimum).result = .ok (out, after)) :
    ∀ (k : Nat) (asset : Asset), after.assets[k]? = some asset →
      (i = k → p.SparesRest tokenAmount i) → 0 < asset.scaledBalance := by
  refine forall_of_scales_eq (scales_of_withdrawAsset h) fun k other hother => ?_
  obtain ⟨q, asset, adminFee, balance, tokenSupply, adminBalance, hq, -, rfl, hasset, hfee, hbalance,
    -, -, rfl⟩ := withdrawAsset_eq_ok h
  obtain ⟨s, hs⟩ := exists_course_of_quoteWithdrawAsset_eq_ok hq
  obtain rfl : s.asset = asset := Option.some.inj (hs.asset_eq.symm.trans hasset)
  rw [FeeRate.apply_eq_ok_iff, Word.val_monus] at hfee
  by_cases hi : i = k
  · subst hi
    obtain ⟨hk, -⟩ := List.getElem?_eq_some_iff.1 hasset
    exact ⟨_, List.getElem?_set_self hk,
      fun hsafe => hs.settled_pos hq (hsafe rfl) hfee hbalance⟩
  · exact ⟨other, by rw [List.getElem?_set_ne hi, hother], fun _ => hlive.pos hother⟩

/-- What is there of the input asset and what is paid in for an exchange reach the grain of its scale
together. -/
def KeepsInput (p : Pool) (i : Nat) (dx : Amount) : Prop :=
  ∀ asset : Asset, p.assets[i]? = some asset →
    asset.scale.grain ≤ asset.scaledBalance + asset.scale.scaledUnits dx.val

/-- What an exchange keeps of the output asset reaches the grain of its scale. -/
def KeepsOutput (p : Pool) (i j : Nat) (dx : Amount) : Prop :=
  ∀ (s : SwapCourse) (q : SwapQuote), (p.quoteSwap i j dx).result = .ok q → s.LeadsTo p i j dx q →
    s.pair.target.scale.grain ≤ s.kept.val

/-- The input asset of a live pool is kept if its price scale is whole, or if what is paid in stands for
something. -/
theorem keepsInput_of_isWhole_or_pos {i : Nat} {dx : Amount} (hlive : p.IsLive)
    (h : ∀ asset : Asset, p.assets[i]? = some asset →
      asset.scale.IsWhole ∨ 0 < asset.scale.scaledUnits dx.val) : p.KeepsInput i dx := by
  intro asset hasset
  have hpos : 0 < asset.scale.scaledUnits asset.balance.val := hlive.pos hasset
  rcases h asset hasset with hwhole | hpaid
  · have hgrain : asset.scale.grain ≤ asset.scaledBalance := by
      rw [← asset.scale.scaledUnits_nativeUnits_pos_iff, Asset.scaledBalance,
        hwhole.nativeUnits_scaledUnits]
      exact hpos
    exact Nat.le_add_right_of_le hgrain
  · exact asset.scale.scaledUnits_nativeUnits_pos_iff.1
      (asset.scale.scaledUnits_nativeUnits_add_pos hpos hpaid)

/-- The output asset is kept, whatever is paid in, if the trade fee on all of its balance but one unit
reaches the grain. -/
theorem keepsOutput_of_charge {i j : Nat} {dx : Amount}
    (h : ∀ asset : Asset, p.assets[j]? = some asset →
      asset.scale.grain ≤ p.terms.fee.charge (asset.scaledBalance - 1)) : p.KeepsOutput i j dx := by
  intro s q _ hs
  have hcharge := hs.charge_le_kept
  rw [hs.pair_isOf.val_y] at hcharge
  exact Nat.le_trans (h s.pair.target hs.pair_isOf.target_eq) hcharge

/-- The output asset is kept if its native units stand for something and the quote leaves it one of them
in the fee or in the balance. -/
theorem keepsOutput_of_quote {i j : Nat} {dx : Amount} {q : SwapQuote}
    (hq : (p.quoteSwap i j dx).result = .ok q) (hfine : p.IsFine j)
    (hunit : 1 ≤ q.fee.val ∨ 1 ≤ q.balanceOut.val) : p.KeepsOutput i j dx := by
  intro s q' hq' hs
  obtain rfl : q = q' := Except.ok.inj (hq.symm.trans hq')
  rw [hs.val_quotedFee, hs.val_balanceOut] at hunit
  have hfee : s.fee.val ≤ s.kept.val := hs.val_kept ▸ Nat.le_add_left _ _
  have hbalance : 1 ≤ s.pair.target.scale.nativeUnits s.kept.val :=
    hunit.elim (fun hone => Nat.le_trans hone (PriceScale.nativeUnits_mono _ hfee)) id
  exact s.pair.target.scale.scaledUnits_nativeUnits_pos_iff.1
    (PriceScale.scaledUnits_pos_of_base_le (hfine _ hs.pair_isOf.target_eq) hbalance)

/-- In the solve of an exchange the grain of the output asset does not lie beyond the root. -/
def RootReachesGrain (p : Pool) (i j : Nat) (dx : Amount) : Prop :=
  ∀ (s : SwapCourse) (q : SwapQuote), s.LeadsTo p i j dx q →
    ¬ Curve.BeyondRoot
      (Curve.linearTerm ((s.pair.xp.set i s.x).eraseIdx j) s.pair.d.val
        (s.pair.xp.length * p.terms.amplification.coefficient.val))
      (Curve.constantTerm ((s.pair.xp.set i s.x).eraseIdx j) s.pair.xp.length s.pair.d.val
        (s.pair.xp.length * p.terms.amplification.coefficient.val))
      s.pair.d.val s.pair.target.scale.grain

/-- The output asset is kept if its grain does not lie beyond the root: the solved balance is at most one
unit below it. -/
theorem keepsOutput_of_root {i j : Nat} {dx : Amount} (h : p.RootReachesGrain i j dx) :
    p.KeepsOutput i j dx := by
  intro s q _ hs
  have hbracket := Curve.bracketsRoot_of_freeBalance (Curve.outputBalance_eq_ok hs.solved)
  have hkept := hs.val_kept
  refine Nat.le_of_not_lt fun hless => h s q hs (Curve.BeyondRoot.mono hbracket.lt_succ ?_)
  omega

/-- The source of an exchange keeps a positive balance. -/
theorem SwapCourse.LeadsTo.source_pos {s : SwapCourse} {i j : Nat} {dx : Amount} {q : SwapQuote}
    (hs : s.LeadsTo p i j dx q) (hsafe : p.KeepsInput i dx) :
    0 < s.pair.source.scale.scaledUnits q.balanceIn.val := by
  rw [hs.val_balanceIn, PriceScale.scaledUnits_nativeUnits_pos_iff, hs.val_x, hs.val_paid,
    hs.pair_isOf.val_x]
  exact hsafe s.pair.source hs.pair_isOf.source_eq

/-- The target of an exchange keeps a positive balance. -/
theorem SwapCourse.LeadsTo.target_pos {s : SwapCourse} {i j : Nat} {dx : Amount} {q : SwapQuote}
    (hs : s.LeadsTo p i j dx q) (hq : (p.quoteSwap i j dx).result = .ok q)
    (hsafe : p.KeepsOutput i j dx) : 0 < s.pair.target.scale.scaledUnits q.balanceOut.val := by
  rw [hs.val_balanceOut, PriceScale.scaledUnits_nativeUnits_pos_iff]
  exact hsafe s q hq hs

/-- An exchange leaves every asset of a live pool positive, if both its assets are kept. -/
theorem scaledBalance_pos_of_swapAtLeast {i j : Nat} {dx minimum out : Amount} (hlive : p.IsLive)
    (h : (p.swapAtLeast i j dx minimum).result = .ok (out, after)) :
    ∀ (k : Nat) (asset : Asset), after.assets[k]? = some asset →
      (i = k → p.KeepsInput i dx) ∧ (j = k → p.KeepsOutput i j dx) → 0 < asset.scaledBalance := by
  refine forall_of_scales_eq (scales_of_swapAtLeast h) fun k asset hasset => ?_
  obtain ⟨s, q, hq, hs, -, hafter⟩ := exists_course_of_swapAtLeast_eq_ok h
  obtain ⟨balance, hk, hleft⟩ := hafter hasset
  refine ⟨_, hk, fun ⟨hinput, houtput⟩ => ?_⟩
  cases hleft with
  | source => exact hs.source_pos (hinput rfl)
  | target => exact hs.target_pos hq (houtput rfl)
  | other => exact hlive.pos hasset

end Pool

/-- The circumstances in which rounding cannot take the rest of asset `k` of a live pool. -/
def Command.Spares (p : Pool) (k : Nat) : Command → Prop
  | swap i j dx | swapAtLeast i j dx _ =>
    (i = k → p.KeepsInput i dx) ∧ (j = k → p.KeepsOutput i j dx)
  | deposit _ | depositAtLeast _ _ => True
  | withdraw amount => p.SparesShare amount k
  | withdrawAmounts amounts => p.SparesAmounts amounts k
  | withdrawAsset tokenAmount i _ => i = k → p.SparesRest tokenAmount i

namespace Pool

variable {p after : Pool}

/-- A command leaves a live pool drained, or every asset positive that it spares. -/
theorem isDrained_or_pos_of_perform {c : Command} {reply : Reply} (hlive : p.IsLive)
    (h : (p.perform c).result = .ok (reply, after)) :
    after.IsDrained ∨ ∀ (k : Nat) (asset : Asset), after.assets[k]? = some asset →
      c.Spares p k → 0 < asset.scaledBalance := by
  cases c with
  | swap i j dx | swapAtLeast i j dx minimum =>
    obtain ⟨out, hout, rfl⟩ := exists_of_map_reply_eq_ok h
    exact .inr (scaledBalance_pos_of_swapAtLeast hlive hout)
  | deposit amounts | depositAtLeast amounts minimum =>
    obtain ⟨mint, hmint, rfl⟩ := exists_of_map_reply_eq_ok h
    exact .inr fun k asset hk _ => (isLive_of_depositAtLeast hlive hmint).pos hk
  | withdraw amount =>
    obtain ⟨shares, hshares, rfl⟩ := exists_of_map_reply_eq_ok h
    exact isDrained_or_pos_of_withdraw hlive hshares
  | withdrawAmounts amounts =>
    obtain ⟨burn, hburn, rfl⟩ := exists_of_map_reply_eq_ok h
    exact isDrained_or_pos_of_withdrawAmounts hburn
  | withdrawAsset tokenAmount i minimum =>
    obtain ⟨out, hout, rfl⟩ := exists_of_map_reply_eq_ok h
    exact .inr (scaledBalance_pos_of_withdrawAsset hlive hout)

/-- A command that spares every asset leaves a live pool live or drained. -/
theorem isLive_or_isDrained_of_perform {c : Command} {reply : Reply} (hlive : p.IsLive)
    (h : (p.perform c).result = .ok (reply, after)) (hspares : ∀ k, c.Spares p k) :
    after.IsLive ∨ after.IsDrained := by
  refine (isDrained_or_pos_of_perform hlive h).symm.imp_left fun hall asset hmem => ?_
  obtain ⟨k, hk⟩ := List.mem_iff_getElem?.1 hmem
  exact hall k asset hk (hspares k)

/-- A command strands the pool of a configuration: the pool is live before it, and afterwards asset `k`
is at a price-scaled balance of zero and some other is not, so that the invariant is refused for a
division by zero. -/
def Strands (config : Config) (c : Command) (k : Nat) : Prop :=
  ∃ start : Pool, ofConfig config = .ok start ∧ start.IsLive ∧
    (∃ reply, (start.perform c).result = .ok (reply, (start.respond (.command c)).2)) ∧
    (start.respond (.command c)).2.assets[k]?.map Asset.scaledBalance = some 0 ∧
    ¬ (start.respond (.command c)).2.IsDrained ∧
    (start.respond (.command c)).2.invariant.result =
      .error (.divisionByZero "D: zero price-scaled balance")

end Pool

end StablePool
