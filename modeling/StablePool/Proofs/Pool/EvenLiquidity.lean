import StablePool.Proofs.Curve.EqualBalances
import StablePool.Proofs.Pool.DepositValue
import StablePool.Proofs.Pool.PartedWithdrawals

/-!
# Even deposits and withdrawals

If the balances of a pool are worth the same in price-scaled units, and so are the amounts that are paid
in or taken out, then every balance that is compared with its ideal is equal to it, whatever the decimals
of the assets. Nothing is charged, and the tokens minted or burned are the exact share, rounded down once.
A proportional withdrawal of these tokens then pays no more than the amounts, and exactly these where the
share was not rounded. Taking out all balances of any pool burns its whole supply.

All price scales are whole here. What fractions of a price-scaled unit do to these laws is not stated.
-/

namespace StablePool.Pool

/-- Amounts of the assets that are worth the same in price-scaled units, without a remainder. -/
structure AllWorth (p : Pool) (amounts : List Amount) (worth : Nat) : Prop where
  length_eq : amounts.length = p.assetCount
  mul_eq : ∀ paired ∈ amounts.zip p.scales, paired.1.val * paired.2.unitsPerNative = worth

section

variable {p : Pool} {amounts : List Amount} {worth : Nat}

/-- Each amount is worth what all are. -/
theorem AllWorth.val_mul (h : p.AllWorth amounts worth) {k : Nat} {asset : Asset} {amount : Amount}
    (hasset : p.assets[k]? = some asset) (hamount : amounts[k]? = some amount) :
    amount.val * asset.scale.unitsPerNative = worth :=
  h.mul_eq (amount, asset.scale)
    (List.mem_of_getElem? (List.getElem?_zip_eq_some.2 ⟨hamount, getElem?_scales hasset⟩))

/-- Amounts are worth the same if each at the index of an asset is. -/
theorem AllWorth.of_forall (hlength : amounts.length = p.assetCount)
    (h : ∀ (k : Nat) (asset : Asset) (amount : Amount), p.assets[k]? = some asset →
      amounts[k]? = some amount → amount.val * asset.scale.unitsPerNative = worth) :
    p.AllWorth amounts worth := by
  refine ⟨hlength, fun (amount, scale) hpaired => ?_⟩
  obtain ⟨k, hk⟩ := List.mem_iff_getElem?.1 hpaired
  obtain ⟨hamount, hscale⟩ := List.getElem?_zip_eq_some.1 hk
  obtain ⟨asset, hasset, rfl⟩ := exists_asset_of_getElem?_scales hscale
  exact h k asset amount hasset hamount

/-- The invariant of amounts that are worth the same is their sum. -/
theorem AllWorth.val_invariant (hwhole : ∀ scale ∈ p.scales, scale.IsWhole)
    (h : p.AllWorth amounts worth) {d : Amount} (hd : (p.invariantOf amounts).result = .ok d) :
    d.val = p.assetCount * worth := by
  rw [invariantOf, Logged.result_bind, Logged.result_lift, Checked.bind_eq_ok_iff] at hd
  obtain ⟨xp, hxp, hd⟩ := hd
  have hworth : ∀ x ∈ xp, x.val = worth := by
    intro x hx
    obtain ⟨⟨amount, scale⟩, hpaired, hscaled⟩ := Checked.exists_mem_of_mapM_eq_ok hxp hx
    have hscale := hwhole scale (List.of_mem_zip hpaired).2
    rw [hscale.toScaled_eq_ok_iff.1 hscaled]
    exact h.mul_eq (amount, scale) hpaired
  rw [Curve.val_invariant_of_forall_eq hworth hd, length_of_scaledOf_eq_ok h.length_eq hxp]

/-- A pool with an invariant has an asset. -/
theorem assetCount_pos_of_invariantOf (hlength : amounts.length = p.assetCount) {d : Amount}
    (hd : (p.invariantOf amounts).result = .ok d) : 0 < p.assetCount := by
  rw [invariantOf, Logged.result_bind, Logged.result_lift, Checked.bind_eq_ok_iff] at hd
  obtain ⟨xp, hxp, hd⟩ := hd
  obtain ⟨hcount, -⟩ := Curve.invariant_eq_ok hd
  rw [length_of_scaledOf_eq_ok hlength hxp] at hcount
  exact Nat.lt_of_lt_of_le Nat.two_pos hcount

end

section

variable {p after : Pool} {s : LiquidityCourse} {entries : List AssetQuote}

/-- A pool that carries out an uncharged course goes on with the tentative balances, and owes the
administrator what it did. -/
theorem getElem?_of_settleAssets_uncharged {tentative : List Amount} {assets : List Asset}
    (hlength : tentative.length = p.assetCount)
    (h : p.settleAssets (tentative.map fun balance => ⟨balance, ⟨0, 0⟩⟩) = .ok assets) {k : Nat}
    {asset : Asset} (hasset : p.assets[k]? = some asset) :
    ∃ balance, tentative[k]? = some balance ∧ assets[k]? = some { asset with balance } := by
  obtain ⟨balance, hbalance⟩ := exists_getElem?_of_length_eq hlength hasset
  have he : (tentative.map fun balance => (⟨balance, ⟨0, 0⟩⟩ : AssetQuote))[k]? =
      some ⟨balance, ⟨0, 0⟩⟩ := by
    rw [List.getElem?_map, hbalance, Option.map_some]
  obtain ⟨adminBalance, hsettled, hadmin⟩ := getElem?_of_settleAssets_eq_ok h hasset he
  obtain rfl : adminBalance = asset.adminBalance := Word.ext_iff.2 hadmin
  exact ⟨balance, hbalance, hsettled⟩

/-- A course between balances that are worth the same is free of charge, and its invariants are the sums
of the balances. -/
theorem LiquidityCourse.LeadsTo.uncharged_of_allWorth (h : s.LeadsTo p entries) {x worth : Nat}
    (hwhole : ∀ scale ∈ p.scales, scale.IsWhole) (hbalances : p.AllWorth p.balances x) (hx : 0 < x)
    (htentative : p.AllWorth s.tentative worth) :
    s.d0.val = p.assetCount * x ∧ s.d2.val = p.assetCount * worth ∧
      entries = s.tentative.map fun balance => ⟨balance, ⟨0, 0⟩⟩ := by
  have hd0 := hbalances.val_invariant hwhole h.invariant_eq
  have hd1 := htentative.val_invariant hwhole h.tentative_eq
  have hcount := assetCount_pos_of_invariantOf htentative.length_eq h.tentative_eq
  obtain ⟨hnet, hentries⟩ := h.uncharged htentative.length_eq fun k asset balance fee hasset
      hbalance hcharges => by
    refine hcharges.fee_eq_zero_of_ideal ?_
    have hold := hbalances.val_mul hasset (getElem?_balances hasset)
    have hnew := htentative.val_mul hasset hbalance
    have hpos : 0 < p.assetCount * x := Nat.mul_pos hcount hx
    rw [hd0, hd1, ← hnew, ← hold]
    rw [← hold] at hpos
    rw [show p.assetCount * (balance.val * asset.scale.unitsPerNative) * asset.balance.val =
      balance.val * (p.assetCount * (asset.balance.val * asset.scale.unitsPerNative)) by ring]
    exact Nat.mul_div_cancel _ hpos
  have hd2 := h.final_eq
  rw [hnet] at hd2
  exact ⟨hd0, htentative.val_invariant hwhole hd2, hentries⟩

/-- What a proportional withdrawal pays of each asset, against an amount for each. -/
theorem forall₂_of_withdraw_eq_ok {R : Amount → Amount → Prop} {amount : Amount}
    {shares amounts : List Amount} (h : (p.withdraw amount).result = .ok (shares, after))
    (hlength : amounts.length = p.assetCount)
    (hR : ∀ (k : Nat) (asset : Asset) (share other : Amount), p.assets[k]? = some asset →
      amounts[k]? = some other →
      share.val = asset.balance.val * amount.val / p.tokenSupply.val → R share other) :
    List.Forall₂ R shares amounts := by
  obtain ⟨_, _, -, -, hshares, -, -⟩ := withdraw_eq_ok h
  have hcount : shares.length = p.assetCount := by
    rw [Checked.length_eq_of_mapM_eq_ok hshares, length_balances]
  refine List.forall₂_iff_get.2 ⟨hcount.trans hlength.symm, fun k hk hk' => ?_⟩
  have hasset : p.assets[k]? = some p.assets[k] :=
    List.getElem?_eq_getElem (Nat.lt_of_lt_of_eq hk hcount)
  obtain ⟨share, _, hshare, hval, -, -⟩ := getElem?_of_withdraw_eq_ok h hasset
  rw [List.getElem?_eq_getElem hk, Option.some.injEq] at hshare
  rw [← hshare] at hval
  exact hR k _ _ _ hasset (List.getElem?_eq_getElem hk') hval

variable {amounts : List Amount} {x y : Nat}

/-- The tentative balances of a deposit of amounts that are worth the same. -/
theorem AllWorth.add {tentative : List Amount} (hbalances : p.AllWorth p.balances x)
    (hamounts : p.AllWorth amounts y)
    (h : (p.balances.zip amounts).mapM (fun (held, paid) => held.add paid "deposit balance") =
      .ok tentative) : p.AllWorth tentative (x + y) := by
  refine .of_forall (length_of_mapM_zip_balances hamounts.length_eq h) ?_
  intro k asset balance hasset hbalance
  obtain ⟨paid, hpaid⟩ := exists_getElem?_of_length_eq hamounts.length_eq hasset
  have hheld := getElem?_balances hasset
  obtain ⟨sum, hsum, hadd⟩ := Checked.exists_getElem?_of_mapM_zip_eq_ok h hheld hpaid
  obtain rfl : sum = balance := Option.some.inj (hsum.symm.trans hbalance)
  rw [Word.add_eq_ok_iff.1 hadd, Nat.add_mul, hbalances.val_mul hasset hheld,
    hamounts.val_mul hasset hpaid]

/-- The tentative balances of a withdrawal of amounts that are worth the same. -/
theorem AllWorth.sub {tentative : List Amount} (hbalances : p.AllWorth p.balances x)
    (hamounts : p.AllWorth amounts y)
    (h : (p.balances.zip amounts).mapM
      (fun (held, taken) => held.sub taken "withdrawal exceeds balance") = .ok tentative) :
    p.AllWorth tentative (x - y) := by
  refine .of_forall (length_of_mapM_zip_balances hamounts.length_eq h) ?_
  intro k asset balance hasset hbalance
  obtain ⟨taken, htaken⟩ := exists_getElem?_of_length_eq hamounts.length_eq hasset
  have hheld := getElem?_balances hasset
  obtain ⟨rest, hrest, hsub⟩ := Checked.exists_getElem?_of_mapM_zip_eq_ok h hheld htaken
  obtain rfl : rest = balance := Option.some.inj (hrest.symm.trans hbalance)
  have hparts : rest.val + taken.val = asset.balance.val := Word.sub_eq_ok_iff.1 hsub
  rw [← hbalances.val_mul hasset hheld, ← hamounts.val_mul hasset htaken, ← hparts, Nat.add_mul,
    Nat.add_sub_cancel]

/-- A balance and an amount of the same asset stand to each other as what all are worth. -/
theorem AllWorth.mul_mul_eq (hbalances : p.AllWorth p.balances x) (hamounts : p.AllWorth amounts y)
    (supply : Nat) {k : Nat} {asset : Asset} {amount : Amount} (hasset : p.assets[k]? = some asset)
    (hamount : amounts[k]? = some amount) :
    amount.val * supply * x = asset.balance.val * (supply * y) := by
  rw [← hamounts.val_mul hasset hamount, ← hbalances.val_mul hasset (getElem?_balances hasset)]
  ring

/-- Tokens that are at most the share of an amount in the supply are worth at most the amount. -/
theorem AllWorth.mul_le (hbalances : p.AllWorth p.balances x) (hamounts : p.AllWorth amounts y)
    (hx : 0 < x) {tokens supply : Nat} (htokens : tokens * x ≤ supply * y) {k : Nat} {asset : Asset}
    {amount : Amount} (hasset : p.assets[k]? = some asset) (hamount : amounts[k]? = some amount) :
    asset.balance.val * tokens ≤ amount.val * supply := by
  refine Nat.le_of_mul_le_mul_right ?_ hx
  rw [hbalances.mul_mul_eq hamounts supply hasset hamount, Nat.mul_assoc]
  exact Nat.mul_le_mul_left _ htokens

/-- Tokens that are exactly the share of an amount in the supply are worth the amount. -/
theorem AllWorth.mul_eq_of_eq (hbalances : p.AllWorth p.balances x) (hamounts : p.AllWorth amounts y)
    (hx : 0 < x) {tokens supply : Nat} (htokens : tokens * x = supply * y) {k : Nat} {asset : Asset}
    {amount : Amount} (hasset : p.assets[k]? = some asset) (hamount : amounts[k]? = some amount) :
    asset.balance.val * tokens = amount.val * supply := by
  refine Nat.eq_of_mul_eq_mul_right hx ?_
  rw [hbalances.mul_mul_eq hamounts supply hasset hamount, Nat.mul_assoc, htokens]

/-- The share of a sum of equal amounts in a sum of equal balances. -/
theorem val_mulDiv_even {count : Nat} {supply moved d0 tokens : Amount} {step : String}
    (hcount : 0 < count) (hmoved : moved.val = count * y) (hd0 : d0.val = count * x)
    (h : Word.mulDiv supply moved d0 step = .ok tokens) : tokens.val = supply.val * y / x := by
  rw [(Word.mulDiv_eq_ok_iff.1 h).2, hmoved, hd0, Nat.mul_left_comm, Nat.mul_div_mul_left _ _ hcount]

/-- What an even deposit does: nothing is charged, and the tokens minted are the share of the amounts in
the supply. -/
theorem even_deposit {minimum mint : Amount} (hwhole : ∀ scale ∈ p.scales, scale.IsWhole)
    (hbalances : p.AllWorth p.balances x) (hamounts : p.AllWorth amounts y) (hx : 0 < x)
    (hsome : p.tokenSupply ≠ 0)
    (h : (p.depositAtLeast amounts minimum).result = .ok (mint, after)) :
    (∃ q, (p.quoteDeposit amounts).result = .ok q ∧ ∀ e ∈ q.entries, e.charge = ⟨0, 0⟩) ∧
      mint.val = p.tokenSupply.val * y / x ∧
      after.terms = p.terms ∧ after.assetCount = p.assetCount ∧
      after.tokenSupply.val = p.tokenSupply.val + mint.val ∧
      ∀ (k : Nat) (asset : Asset) (paid : Amount), p.assets[k]? = some asset →
        amounts[k]? = some paid → ∃ balance, after.assets[k]? = some { asset with balance } ∧
          balance.val = asset.balance.val + paid.val := by
  obtain ⟨q, tokenSupply, assets, hq, rfl, -, -, hsupply, hassets, rfl⟩ := depositAtLeast_eq_ok h
  obtain ⟨-, tentative, htentative, hcourse⟩ := quoteDeposit_eq_ok hq
  have hsum := hbalances.add hamounts htentative
  obtain ⟨hfirst, -, -⟩ | ⟨-, s, rfl, hleads, growth, hgrowth, hmint⟩ := hcourse
  · exact absurd hfirst hsome
  · obtain ⟨hd0, hd2, hentries⟩ := hleads.uncharged_of_allWorth hwhole hbalances hx hsum
    have hcount := assetCount_pos_of_invariantOf hsum.length_eq hleads.tentative_eq
    refine ⟨⟨q, hq, ?_⟩, ?_, rfl, ?_, hsupply, ?_⟩
    · rw [hentries]
      exact List.forall_mem_map.2 fun _ _ => rfl
    · have hgrown : growth.val = p.assetCount * y := by
        rw [hd0, hd2, Nat.mul_add] at hgrowth
        omega
      exact val_mulDiv_even hcount hgrown hd0 hmint
    · rw [← length_scales, ← length_scales, scales_of_depositAtLeast h]
    · intro k asset paid hasset hpaid
      rw [hentries] at hassets
      obtain ⟨balance, hbalance, hafter⟩ :=
        getElem?_of_settleAssets_uncharged hsum.length_eq hassets hasset
      have hheld := getElem?_balances hasset
      obtain ⟨sum, hsum, hadd⟩ := Checked.exists_getElem?_of_mapM_zip_eq_ok htentative hheld hpaid
      obtain rfl : sum = balance := Option.some.inj (hsum.symm.trans hbalance)
      exact ⟨sum, hafter, Word.add_eq_ok_iff.1 hadd⟩

/-- What an even withdrawal of chosen amounts does: nothing is charged, and the tokens burned are the
share of the amounts in the supply. -/
theorem even_withdrawal {burn : Amount} (hwhole : ∀ scale ∈ p.scales, scale.IsWhole)
    (hbalances : p.AllWorth p.balances x) (hamounts : p.AllWorth amounts y) (hx : 0 < x)
    (h : (p.withdrawAmounts amounts).result = .ok (burn, after)) :
    (∃ q, (p.quoteWithdrawAmounts amounts).result = .ok q ∧ ∀ e ∈ q.entries, e.charge = ⟨0, 0⟩) ∧
      burn.val = p.tokenSupply.val * y / x ∧ after.tokenSupply.val + burn.val = p.tokenSupply.val ∧
      ∀ (k : Nat) (asset : Asset) (taken : Amount), p.assets[k]? = some asset →
        amounts[k]? = some taken → ∃ balance, after.assets[k]? = some { asset with balance } ∧
          balance.val + taken.val = asset.balance.val := by
  obtain ⟨q, tokenSupply, assets, hq, rfl, hsupply, hassets, rfl⟩ := withdrawAmounts_eq_ok h
  obtain ⟨-, s, htentative, hleads, shrink, hshrink, hburn⟩ := quoteWithdrawAmounts_eq_ok hq
  have hrest := hbalances.sub hamounts htentative
  obtain ⟨hd0, hd2, hentries⟩ := hleads.uncharged_of_allWorth hwhole hbalances hx hrest
  have hcount := assetCount_pos_of_invariantOf hrest.length_eq hleads.tentative_eq
  rw [hentries] at hassets
  have htaken (k : Nat) (asset : Asset) (taken : Amount) (hasset : p.assets[k]? = some asset)
      (hamount : amounts[k]? = some taken) : ∃ balance,
        assets[k]? = some { asset with balance } ∧ balance.val + taken.val = asset.balance.val := by
    obtain ⟨balance, hbalance, hafter⟩ :=
      getElem?_of_settleAssets_uncharged hrest.length_eq hassets hasset
    obtain ⟨rest, hrest, hsub⟩ := Checked.exists_getElem?_of_mapM_zip_eq_ok htentative
      (getElem?_balances hasset) hamount
    obtain rfl : rest = balance := Option.some.inj (hrest.symm.trans hbalance)
    exact ⟨rest, hafter, Word.sub_eq_ok_iff.1 hsub⟩
  refine ⟨⟨q, hq, ?_⟩, ?_, hsupply, htaken⟩
  · rw [hentries]
    exact List.forall_mem_map.2 fun _ _ => rfl
  · have hle : y ≤ x := by
      have hfirst : p.assets[0]? = some p.assets[0] := List.getElem?_eq_getElem hcount
      obtain ⟨taken, hamount⟩ := exists_getElem?_of_length_eq hamounts.length_eq hfirst
      obtain ⟨balance, -, hparts⟩ := htaken 0 _ taken hfirst hamount
      rw [← hbalances.val_mul hfirst (getElem?_balances hfirst), ← hamounts.val_mul hfirst hamount]
      exact Nat.mul_le_mul_right _ (by omega)
    have hgone : shrink.val = p.assetCount * y := by
      rw [hd0, hd2, Nat.mul_sub] at hshrink
      have := Nat.mul_le_mul_left p.assetCount hle
      omega
    exact val_mulDiv_even hcount hgone hd0 hburn

/-- Taking out all balances leaves none. -/
theorem eq_zero_of_sub_balances {tentative : List Amount}
    (h : (p.balances.zip p.balances).mapM
      (fun (held, taken) => held.sub taken "withdrawal exceeds balance") = .ok tentative) {k : Nat}
    {asset : Asset} {balance : Amount} (hasset : p.assets[k]? = some asset)
    (hbalance : tentative[k]? = some balance) : balance = 0 := by
  have hheld := getElem?_balances hasset
  obtain ⟨rest, hrest, hsub⟩ := Checked.exists_getElem?_of_mapM_zip_eq_ok h hheld hheld
  obtain rfl : rest = balance := Option.some.inj (hrest.symm.trans hbalance)
  have hparts : rest.val + asset.balance.val = asset.balance.val := Word.sub_eq_ok_iff.1 hsub
  exact Word.eq_zero_iff.2 (by omega)

/-- The invariant of amounts that are all zero is zero. -/
theorem val_invariantOf_eq_zero (hlength : amounts.length = p.assetCount)
    (hnone : ∀ (k : Nat) (asset : Asset) (balance : Amount), p.assets[k]? = some asset →
      amounts[k]? = some balance → balance = 0)
    {d : Amount} (hd : (p.invariantOf amounts).result = .ok d) : d.val = 0 := by
  obtain ⟨-, hzero⟩ | hpositive := scaledZero_or_scaledPositive hd
  · exact hzero
  · have hcount : 0 < p.assets.length := assetCount_pos_of_invariantOf hlength hd
    have hfirst : p.assets[0]? = some p.assets[0] := List.getElem?_eq_getElem hcount
    obtain ⟨balance, hbalance⟩ := exists_getElem?_of_length_eq hlength hfirst
    have hsome := hpositive 0 _ balance hfirst hbalance
    rw [hnone 0 _ balance hfirst hbalance, Word.val_zero, PriceScale.scaledUnits_zero] at hsome
    exact absurd hsome (Nat.lt_irrefl 0)

/-- Taking out all balances of a pool with an invariant is free of charge, burns the whole supply, and
leaves nothing of any asset. -/
theorem full_withdrawal {d0 burn : Amount} (hd0 : p.invariant.result = .ok d0) (hpos : 0 < d0.val)
    (h : (p.withdrawAmounts p.balances).result = .ok (burn, after)) :
    (∃ q, (p.quoteWithdrawAmounts p.balances).result = .ok q ∧ ∀ e ∈ q.entries, e.charge = ⟨0, 0⟩) ∧
      burn = p.tokenSupply ∧ after.tokenSupply = 0 ∧
      ∀ (k : Nat) (asset : Asset), p.assets[k]? = some asset →
        after.assets[k]? = some { asset with balance := 0 } := by
  obtain ⟨q, tokenSupply, assets, hq, rfl, hsupply, hassets, rfl⟩ := withdrawAmounts_eq_ok h
  obtain ⟨hlength, s, htentative, hleads, shrink, hshrink, hburn⟩ := quoteWithdrawAmounts_eq_ok hq
  have hrest := length_of_mapM_zip_balances hlength htentative
  obtain rfl : s.d0 = d0 := Except.ok.inj (hleads.invariant_eq.symm.trans hd0)
  have hnone (k : Nat) (asset : Asset) (balance : Amount) (hasset : p.assets[k]? = some asset)
      (hbalance : s.tentative[k]? = some balance) : balance = 0 :=
    eq_zero_of_sub_balances htentative hasset hbalance
  obtain ⟨hnet, hentries⟩ := hleads.uncharged hrest fun k asset balance fee hasset hbalance
      hcharges => by
    refine hcharges.fee_eq_zero_of_ideal ?_
    rw [val_invariantOf_eq_zero hrest hnone hleads.tentative_eq, Nat.zero_mul, Nat.zero_div,
      hnone k asset balance hasset hbalance, Word.val_zero]
  have hd2 := hleads.final_eq
  rw [hnet] at hd2
  rw [val_invariantOf_eq_zero hrest hnone hd2] at hshrink
  obtain rfl : shrink = s.d0 := Word.ext_iff.2 hshrink
  have hall : q.tokenAmount = p.tokenSupply := by
    rw [Word.ext_iff, (Word.mulDiv_eq_ok_iff.1 hburn).2, Nat.mul_div_cancel _ hpos]
  refine ⟨⟨q, hq, ?_⟩, hall, ?_, ?_⟩
  · rw [hentries]
    exact List.forall_mem_map.2 fun _ _ => rfl
  · rw [hall] at hsupply
    have hleft : tokenSupply.val = 0 := by omega
    exact Word.eq_zero_iff.2 hleft
  · intro k asset hasset
    rw [hentries] at hassets
    obtain ⟨balance, hbalance, hafter⟩ := getElem?_of_settleAssets_uncharged hrest hassets hasset
    rw [hnone k asset balance hasset hbalance] at hafter
    exact hafter

/-- Of a balance that grew with the supply, the share of the tokens minted is at most the growth, if the
tokens were worth no more; and is the growth, if they were worth as much. -/
theorem share_of_growth_le {balance paid minted supply : Nat} (h : balance * minted ≤ paid * supply) :
    (balance + paid) * minted / (supply + minted) ≤ paid := by
  refine Nat.div_le_of_le_mul ?_
  rw [Nat.add_mul, Nat.add_mul, Nat.mul_comm supply paid, Nat.mul_comm minted paid]
  exact Nat.add_le_add_right h _

@[inherit_doc share_of_growth_le]
theorem share_of_growth_eq {balance paid minted supply : Nat} (hsome : 0 < supply)
    (h : balance * minted = paid * supply) : (balance + paid) * minted / (supply + minted) = paid := by
  rw [Nat.add_mul, h, ← Nat.mul_add]
  exact Nat.mul_div_cancel _ (Nat.add_pos_left hsome _)

/-- A withdrawal of what a deposit was paid for restores the pool. -/
theorem eq_of_withdraw_of_deposit {middle last : Pool} {mint : Amount} (hterms : middle.terms = p.terms)
    (hlength : amounts.length = p.assetCount) (hcount : middle.assetCount = p.assetCount)
    (hsupply : middle.tokenSupply.val = p.tokenSupply.val + mint.val)
    (hpaid : ∀ (k : Nat) (asset : Asset) (paid : Amount), p.assets[k]? = some asset →
      amounts[k]? = some paid → ∃ balance, middle.assets[k]? = some { asset with balance } ∧
        balance.val = asset.balance.val + paid.val)
    (h : (middle.withdraw mint).result = .ok (amounts, last)) : last = p := by
  have hassets : last.assets = p.assets := by
    apply List.ext_getElem?
    intro k
    cases hasset : p.assets[k]? with
    | none =>
      have hk : p.assetCount ≤ k := List.getElem?_eq_none_iff.1 hasset
      have hlast : last.assetCount = p.assetCount := by
        rw [← hcount, ← length_scales, ← length_scales, scales_of_withdraw h]
      exact List.getElem?_eq_none (Nat.le_trans (Nat.le_of_eq hlast) hk)
    | some asset =>
      obtain ⟨paid, hamount⟩ := exists_getElem?_of_length_eq hlength hasset
      obtain ⟨balance, hgrown, hsum⟩ := hpaid k asset paid hasset hamount
      obtain ⟨share, rest, hshare, -, hlast, hparts⟩ := getElem?_of_withdraw_eq_ok h hgrown
      obtain rfl : share = paid := Option.some.inj (hshare.symm.trans hamount)
      have hparts : rest.val + share.val = balance.val := hparts
      obtain rfl : rest = asset.balance := Word.ext_iff.2 (by omega)
      exact hlast
  obtain ⟨tokenSupply, assets, -, hburned, -, -, rfl⟩ := withdraw_eq_ok h
  obtain rfl : assets = p.assets := hassets
  obtain rfl : tokenSupply = p.tokenSupply := Word.ext_iff.2 (by omega)
  rw [hterms]

end

/-- An even deposit is free of charge and mints exactly its share in the supply, rounded down. The tokens
that it mints can be burned again for no more than was paid in; and if the share was not rounded, in
particular if there are as many tokens as units of the invariant, then this pays back what was paid in and
restores the pool. -/
theorem even_deposit_round_trip {p after : Pool} {amounts : List Amount} {x y : Nat}
    {minimum mint : Amount} (hwhole : ∀ scale ∈ p.scales, scale.IsWhole)
    (hbalances : p.AllWorth p.balances x) (hamounts : p.AllWorth amounts y) (hx : 0 < x)
    (hsome : p.tokenSupply ≠ 0)
    (h : (p.depositAtLeast amounts minimum).result = .ok (mint, after)) :
    (∃ q, (p.quoteDeposit amounts).result = .ok q ∧ ∀ e ∈ q.entries, e.charge = ⟨0, 0⟩) ∧
    mint.val = p.tokenSupply.val * y / x ∧
    (∀ (k : Nat) (asset : Asset) (paid : Amount), p.assets[k]? = some asset →
      amounts[k]? = some paid → ∃ balance, after.assets[k]? = some { asset with balance } ∧
        balance.val = asset.balance.val + paid.val) ∧
    ∃ shares last, (after.withdraw mint).result = .ok (shares, last) ∧
      List.Forall₂ (· ≤ ·) shares amounts ∧
      (x ∣ p.tokenSupply.val * y ∨ p.invariant.result = .ok p.tokenSupply →
        shares = amounts ∧ last = p) := by
  obtain ⟨hfree, hmint, hterms, hcount, hsupply, hpaid⟩ :=
    even_deposit hwhole hbalances hamounts hx hsome h
  have hpos : 0 < p.tokenSupply.val := Nat.pos_of_ne_zero (mt Word.eq_zero_iff.2 hsome)
  have hlength : amounts.length = after.assetCount := hamounts.length_eq.trans hcount.symm
  have hmore : 0 < after.tokenSupply.val := by omega
  obtain ⟨shares, last, hwithdraw⟩ := exists_withdraw_eq_ok
    (mt Word.eq_zero_iff.1 (Nat.ne_of_gt hmore)) (show mint.val ≤ after.tokenSupply.val by omega)
  have hgrown {k : Nat} {asset : Asset} {share paid : Amount} (hasset : after.assets[k]? = some asset)
      (hamount : amounts[k]? = some paid)
      (hval : share.val = asset.balance.val * mint.val / after.tokenSupply.val) :
      ∃ old, p.assets[k]? = some old ∧
        share.val = (old.balance.val + paid.val) * mint.val / (p.tokenSupply.val + mint.val) := by
    obtain ⟨hk, -⟩ := List.getElem?_eq_some_iff.1 hamount
    have hk : k < p.assets.length := Nat.lt_of_lt_of_eq hk hamounts.length_eq
    have hold : p.assets[k]? = some p.assets[k] := List.getElem?_eq_getElem hk
    obtain ⟨balance, hafter, hsum⟩ := hpaid k _ paid hold hamount
    obtain rfl := Option.some.inj (hasset.symm.trans hafter)
    exact ⟨_, hold, by rw [hval, hsum, hsupply]⟩
  refine ⟨hfree, hmint, hpaid, shares, last, hwithdraw, ?_, fun hexact => ?_⟩
  · have hle : mint.val * x ≤ p.tokenSupply.val * y := hmint ▸ Nat.div_mul_le_self _ _
    refine forall₂_of_withdraw_eq_ok hwithdraw hlength fun k asset share paid hasset hamount hval => ?_
    obtain ⟨old, hold, hval⟩ := hgrown hasset hamount hval
    rw [Word.le_iff, hval]
    exact share_of_growth_le (hbalances.mul_le hamounts hx hle hold hamount)
  · have hdvd : x ∣ p.tokenSupply.val * y := by
      rcases hexact with hdvd | hinvariant
      · exact hdvd
      · rw [hbalances.val_invariant hwhole hinvariant, Nat.mul_right_comm]
        exact Nat.dvd_mul_left _ _
    have heq : mint.val * x = p.tokenSupply.val * y := hmint ▸ Nat.div_mul_cancel hdvd
    have hback : List.Forall₂ (· = ·) shares amounts := by
      refine forall₂_of_withdraw_eq_ok hwithdraw hlength fun k asset share paid hasset hamount hval => ?_
      obtain ⟨old, hold, hval⟩ := hgrown hasset hamount hval
      rw [Word.ext_iff, hval]
      exact share_of_growth_eq hpos (hbalances.mul_eq_of_eq hamounts hx heq hold hamount)
    obtain rfl : shares = amounts := List.forall₂_eq_eq_eq ▸ hback
    exact ⟨rfl, eq_of_withdraw_of_deposit hterms hamounts.length_eq hcount hsupply hpaid hwithdraw⟩

/-- A deposit of a third of an even pool of 6, 18 and 8 decimals. With a hundred tokens the share is rounded
down, and burning the tokens minted pays no more than was paid in. With as many tokens as units of the
invariant it pays back exactly that. -/
theorem even_deposit_round_trip_mixed_decimals :
    let six : PriceScale := ⟨.lit (10 ^ 30), by decide⟩
    let eight : PriceScale := ⟨.lit (10 ^ 28), by decide⟩
    let terms : Terms := {
      amplification := ⟨.lit 200, by decide⟩
      fee := ⟨.lit 4⟩
      adminFee := ⟨.lit 5000⟩
      maxIterations := Curve.defaultBound
      fee_isValid := by decide
      adminFee_isValid := by decide }
    let assets : List Asset := [⟨.lit (3 * 10 ^ 6), .lit 5, six⟩, ⟨.lit (3 * 10 ^ 18), 0, .one⟩,
      ⟨.lit (3 * 10 ^ 8), 0, eight⟩]
    let few : Pool := ⟨terms, assets, .lit 100⟩
    let full : Pool := ⟨terms, assets, .lit (9 * 10 ^ 18)⟩
    let amounts : List Amount := [.lit (10 ^ 6), .lit (10 ^ 18), .lit (10 ^ 8)]
    let left (p : Pool) : Pool := (p.respond (.command (.depositAtLeast amounts 0))).2
    (∀ scale ∈ few.scales, scale.IsWhole) ∧ few.AllWorth few.balances (3 * 10 ^ 18) ∧
      few.AllWorth amounts (10 ^ 18) ∧
      (few.depositAtLeast amounts 0).result = .ok (.lit 33, left few) ∧
      (∃ shares last, ((left few).withdraw (.lit 33)).result = .ok (shares, last) ∧
        List.Forall₂ (· ≤ ·) shares amounts) ∧
      (full.depositAtLeast amounts 0).result = .ok (.lit (3 * 10 ^ 18), left full) ∧
      full.invariant.result = .ok full.tokenSupply ∧
      ((left full).withdraw (.lit (3 * 10 ^ 18))).result = .ok (amounts, full) := by
  intro six eight terms assets few full amounts left
  have hwhole : ∀ scale ∈ few.scales, scale.IsWhole := by decide
  have hbalances : few.AllWorth few.balances (3 * 10 ^ 18) := ⟨rfl, by decide⟩
  have hamounts : few.AllWorth amounts (10 ^ 18) := ⟨rfl, by decide⟩
  have hfew : (few.depositAtLeast amounts 0).result = .ok (.lit 33, left few) := by decide +kernel
  have hfull : (full.depositAtLeast amounts 0).result = .ok (.lit (3 * 10 ^ 18), left full) := by
    decide +kernel
  have hinvariant : full.invariant.result = .ok full.tokenSupply := by decide +kernel
  obtain ⟨-, -, -, shares, last, hshares, hle, -⟩ :=
    even_deposit_round_trip hwhole hbalances hamounts (by decide) (by decide) hfew
  obtain ⟨-, -, -, shares', last', hshares', -, hback⟩ :=
    even_deposit_round_trip (p := full) hwhole ⟨rfl, hbalances.mul_eq⟩ ⟨rfl, hamounts.mul_eq⟩
      (by decide) (by decide) hfull
  obtain ⟨rfl, rfl⟩ := hback (.inr hinvariant)
  exact ⟨hwhole, hbalances, hamounts, hfew, ⟨shares, last, hshares, hle⟩, hfull, hinvariant, hshares'⟩

/-- The two ways to take out the same of every asset agree. On an even pool a withdrawal of chosen amounts
that are worth the same is free of charge and burns exactly their share in the supply, rounded down; burning
that many tokens of the same pool pays no more than the amounts, and exactly these if the share was not
rounded. Of any pool with an invariant, taking out all balances is free of charge, burns the whole supply
and leaves nothing. -/
theorem withdrawals_agree_on_even_pool (p : Pool) :
    (∀ (x y : Nat) (amounts : List Amount) (burn : Amount) (after : Pool),
      (∀ scale ∈ p.scales, scale.IsWhole) → p.AllWorth p.balances x → p.AllWorth amounts y → 0 < x →
      (p.withdrawAmounts amounts).result = .ok (burn, after) →
      (∃ q, (p.quoteWithdrawAmounts amounts).result = .ok q ∧ ∀ e ∈ q.entries, e.charge = ⟨0, 0⟩) ∧
      (∀ (k : Nat) (asset : Asset) (taken : Amount), p.assets[k]? = some asset →
        amounts[k]? = some taken → ∃ balance, after.assets[k]? = some { asset with balance } ∧
          balance.val + taken.val = asset.balance.val) ∧
      burn.val = p.tokenSupply.val * y / x ∧
      (p.tokenSupply ≠ 0 → ∃ shares last, (p.withdraw burn).result = .ok (shares, last) ∧
        List.Forall₂ (· ≤ ·) shares amounts ∧ (x ∣ p.tokenSupply.val * y → shares = amounts))) ∧
    ∀ (d0 burn : Amount) (after : Pool), p.invariant.result = .ok d0 → 0 < d0.val →
      (p.withdrawAmounts p.balances).result = .ok (burn, after) →
      (∃ q, (p.quoteWithdrawAmounts p.balances).result = .ok q ∧ ∀ e ∈ q.entries, e.charge = ⟨0, 0⟩) ∧
      burn = p.tokenSupply ∧ after.tokenSupply = 0 ∧
      ∀ (k : Nat) (asset : Asset), p.assets[k]? = some asset →
        after.assets[k]? = some { asset with balance := 0 } := by
  refine ⟨fun x y amounts burn after hwhole hbalances hamounts hx h => ?_,
    fun d0 burn after hd0 hpos h => full_withdrawal hd0 hpos h⟩
  obtain ⟨hfree, hburn, hsupply, htaken⟩ := even_withdrawal hwhole hbalances hamounts hx h
  refine ⟨hfree, htaken, hburn, fun hsome => ?_⟩
  have hpos : 0 < p.tokenSupply.val := Nat.pos_of_ne_zero (mt Word.eq_zero_iff.2 hsome)
  obtain ⟨shares, last, hwithdraw⟩ := exists_withdraw_eq_ok hsome (Nat.le.intro (Nat.add_comm .. ▸ hsupply))
  refine ⟨shares, last, hwithdraw, ?_, fun hdvd => ?_⟩
  · have hle : burn.val * x ≤ p.tokenSupply.val * y := hburn ▸ Nat.div_mul_le_self _ _
    refine forall₂_of_withdraw_eq_ok hwithdraw hamounts.length_eq
      fun k asset share taken hasset hamount hval => ?_
    rw [Word.le_iff, hval]
    exact Nat.div_le_of_le_mul
      (Nat.mul_comm taken.val _ ▸ hbalances.mul_le hamounts hx hle hasset hamount)
  · have heq : burn.val * x = p.tokenSupply.val * y := hburn ▸ Nat.div_mul_cancel hdvd
    have hback : List.Forall₂ (· = ·) shares amounts := by
      refine forall₂_of_withdraw_eq_ok hwithdraw hamounts.length_eq
        fun k asset share taken hasset hamount hval => ?_
      rw [Word.ext_iff, hval, hbalances.mul_eq_of_eq hamounts hx heq hasset hamount]
      exact Nat.mul_div_cancel _ hpos
    exact List.forall₂_eq_eq_eq ▸ hback

/-- A third of an even pool of 6, 18 and 8 decimals, taken out in both ways, and all balances of an uneven
pool. -/
theorem withdrawals_agree_on_even_pool_mixed_decimals :
    let six : PriceScale := ⟨.lit (10 ^ 30), by decide⟩
    let eight : PriceScale := ⟨.lit (10 ^ 28), by decide⟩
    let terms : Terms := {
      amplification := ⟨.lit 200, by decide⟩
      fee := ⟨.lit 4⟩
      adminFee := ⟨.lit 5000⟩
      maxIterations := Curve.defaultBound
      fee_isValid := by decide
      adminFee_isValid := by decide }
    let even : Pool := {
      terms
      assets := [⟨.lit (3 * 10 ^ 6), .lit 5, six⟩, ⟨.lit (3 * 10 ^ 18), 0, .one⟩,
        ⟨.lit (3 * 10 ^ 8), 0, eight⟩]
      tokenSupply := .lit 99 }
    let uneven : Pool := ⟨terms, [⟨.lit 1000, 0, .one⟩, ⟨.lit 5000, .lit 2, .one⟩], .lit 77⟩
    let amounts : List Amount := [.lit (10 ^ 6), .lit (10 ^ 18), .lit (10 ^ 8)]
    let left (p : Pool) (amounts : List Amount) : Pool :=
      (p.respond (.command (.withdrawAmounts amounts))).2
    (∀ scale ∈ even.scales, scale.IsWhole) ∧ even.AllWorth even.balances (3 * 10 ^ 18) ∧
      even.AllWorth amounts (10 ^ 18) ∧
      (even.withdrawAmounts amounts).result = .ok (.lit 33, left even amounts) ∧
      (∃ last, (even.withdraw (.lit 33)).result = .ok (amounts, last)) ∧
      uneven.invariant.result = .ok (.lit 5988) ∧
      (uneven.withdrawAmounts uneven.balances).result = .ok (.lit 77, left uneven uneven.balances) ∧
      (left uneven uneven.balances).assets[1]? = some ⟨0, .lit 2, .one⟩ := by
  intro six eight terms even uneven amounts left
  have hwhole : ∀ scale ∈ even.scales, scale.IsWhole := by decide
  have hbalances : even.AllWorth even.balances (3 * 10 ^ 18) := ⟨rfl, by decide⟩
  have hamounts : even.AllWorth amounts (10 ^ 18) := ⟨rfl, by decide⟩
  have hpart : (even.withdrawAmounts amounts).result = .ok (.lit 33, left even amounts) := by
    decide +kernel
  have hinvariant : uneven.invariant.result = .ok (.lit 5988) := by decide +kernel
  have hall : (uneven.withdrawAmounts uneven.balances).result =
      .ok (.lit 77, left uneven uneven.balances) := by decide +kernel
  obtain ⟨-, -, -, hsame⟩ := (withdrawals_agree_on_even_pool even).1 _ _ _ _ _ hwhole hbalances hamounts
    (by decide) hpart
  obtain ⟨shares, last, hshares, -, hexact⟩ := hsame (by decide)
  obtain rfl : shares = amounts := hexact (by decide)
  obtain ⟨-, -, -, hnothing⟩ :=
    (withdrawals_agree_on_even_pool uneven).2 _ _ _ hinvariant (by decide) hall
  exact ⟨hwhole, hbalances, hamounts, hpart, ⟨last, hshares⟩, hinvariant, hall, hnothing 1 _ rfl⟩

end StablePool.Pool
