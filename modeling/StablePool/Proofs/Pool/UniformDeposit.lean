import Mathlib.Algebra.Order.BigOperators.Group.List
import StablePool.Proofs.Curve.EqualBalances
import StablePool.Proofs.Pool.Frame
import StablePool.Proofs.Pool.Liveness
import StablePool.Proofs.Pool.Normalisation

/-!
# Uniform deposits

The starting balances of a pool can be given as one price-scaled deposit, to be split evenly. What an
asset is credited with is rounded down three times: when the deposit is divided among the assets, when
the share is converted to native units, and when the balance is scaled again. So a pool never starts
with more than the deposit, and each asset falls short of its share by less than what a native unit
stands for and a price-scaled unit. Nothing is lost after the first division if the share of every
asset is a whole number of native units.

Only a conversion to native units can be refused, for a share that is no amount there: a scale below
one makes more native units of the share than it has price-scaled ones.
-/

namespace StablePool

open Checked (RefusesOnly)

namespace Config

/-- In the native units of every asset, an even share of the deposit is an amount. -/
def ShareFits (c : Config) (deposit : Amount) : Prop :=
  ∀ scale ∈ c.priceScales, scale.nativeUnits (share deposit c.assetCount.val).val < 2 ^ 128

instance (c : Config) (deposit : Amount) : Decidable (c.ShareFits deposit) :=
  inferInstanceAs (Decidable (∀ scale ∈ c.priceScales,
    scale.nativeUnits (share deposit c.assetCount.val).val < 2 ^ 128))

variable {c : Config} {deposit : Amount}

/-- A deposit is split by converting its share to the native units of each asset. -/
theorem initialBalances_eq_mapM (hinitial : c.initial = .uniformDeposit deposit) :
    c.initialBalances = c.priceScales.mapM fun scale =>
      Word.mulDiv (share deposit c.assetCount.val) base scale.factor "uniform deposit share" := by
  rw [initialBalances, hinitial]

/-- A deposit can be split exactly if its share fits. -/
theorem exists_initialBalances_eq_ok_iff (hinitial : c.initial = .uniformDeposit deposit) :
    (∃ balances, c.initialBalances = .ok balances) ↔ c.ShareFits deposit := by
  rw [initialBalances_eq_mapM hinitial]
  constructor
  · rintro ⟨balances, hbalances⟩ scale hscale
    obtain ⟨k, hk⟩ := List.mem_iff_getElem?.1 hscale
    obtain ⟨balance, -, hdiv⟩ := Checked.exists_getElem?_of_mapM_eq_ok hbalances hk
    obtain ⟨-, hval⟩ := Word.mulDiv_eq_ok_iff.1 hdiv
    exact hval.symm.trans_lt balance.val_lt
  · intro hfits
    exact Checked.exists_mapM_eq_ok fun scale hscale =>
      ⟨⟨_, hfits scale hscale⟩, Word.mulDiv_eq_ok_iff.2 ⟨scale.factor_pos, rfl⟩⟩

/-- A deposit whose share does not fit is refused for overflow. -/
theorem initialBalances_eq_overflow (hinitial : c.initial = .uniformDeposit deposit)
    (hlarge : ¬ c.ShareFits deposit) :
    c.initialBalances = .error (.overflow "uniform deposit share") := by
  have hrefuses : RefusesOnly (· = .overflow "uniform deposit share") c.initialBalances := by
    rw [initialBalances_eq_mapM hinitial]
    exact Checked.refusesOnly_mapM fun scale _ =>
      Word.refusesOnly_mulDiv_of_pos scale.factor_pos rfl
  cases hresult : c.initialBalances with
  | ok balances =>
    exact absurd ((exists_initialBalances_eq_ok_iff hinitial).1 ⟨balances, hresult⟩) hlarge
  | error cause => rw [hrefuses cause hresult]

end Config

namespace Pool

/-- Every balance is the same price-scaled amount in native units. -/
def HoldsShares (p : Pool) (share : Amount) : Prop :=
  ∀ asset ∈ p.assets, asset.balance.val = asset.scale.nativeUnits share.val

/-- The pool of a uniform deposit holds the shares of it. -/
theorem holdsShares_of_ofConfig {c : Config} {deposit : Amount} {start : Pool}
    (hinitial : c.initial = .uniformDeposit deposit) (h : ofConfig c = .ok start) :
    start.HoldsShares (Config.share deposit c.assetCount.val) := by
  obtain ⟨hvalid, balances, hbalances, rfl⟩ := ofConfig_eq_ok_iff.1 h
  rw [Config.initialBalances_eq_mapM hinitial] at hbalances
  intro asset hasset
  obtain ⟨k, hk⟩ := List.mem_iff_getElem?.1 hasset
  obtain ⟨balance, scale, hbalance, hscale, rfl⟩ := List.getElem?_zipWith_eq_some.1 hk
  obtain ⟨balance', hbalance', hdiv⟩ := Checked.exists_getElem?_of_mapM_eq_ok hbalances hscale
  obtain rfl : balance = balance' := Option.some.inj (hbalance.symm.trans hbalance')
  exact (Word.mulDiv_eq_ok_iff.1 hdiv).2

section

variable {p : Pool} {share : Amount} {xp : List Amount}

/-- Each share is credited as what a round trip leaves of it. -/
theorem HoldsShares.scaledBalance_eq (h : p.HoldsShares share) {asset : Asset}
    (hasset : asset ∈ p.assets) :
    asset.scaledBalance = asset.scale.scaledUnits (asset.scale.nativeUnits share.val) :=
  congrArg asset.scale.scaledUnits (h asset hasset)

/-- So it is credited as no more than the share. -/
theorem HoldsShares.scaledBalance_le (h : p.HoldsShares share) {asset : Asset}
    (hasset : asset ∈ p.assets) : asset.scaledBalance ≤ share.val :=
  h.scaledBalance_eq hasset ▸ asset.scale.scaledUnits_nativeUnits_le share.val

/-- The price-scaled balances of shares can always be formed. -/
theorem HoldsShares.exists_scaled_eq_ok (h : p.HoldsShares share) : ∃ xp, p.scaled = .ok xp := by
  rw [scaled_eq_mapM]
  refine Checked.exists_mapM_eq_ok fun asset hasset => ?_
  exact ⟨⟨_, Nat.lt_of_le_of_lt (h.scaledBalance_le hasset) share.val_lt⟩,
    PriceScale.toScaled_eq_ok_iff.2 rfl⟩

/-- No price-scaled balance exceeds the share. -/
theorem HoldsShares.le_share (h : p.HoldsShares share) (hxp : p.scaled = .ok xp) {x : Amount}
    (hx : x ∈ xp) : x ≤ share := by
  obtain ⟨asset, hasset, hval⟩ := exists_asset_of_mem_scaled hxp hx
  rw [Word.le_iff, hval]
  exact h.scaledBalance_le hasset

/-- An asset falls short of the share by less than a native unit and a price-scaled unit. -/
theorem HoldsShares.shortfall_lt (h : p.HoldsShares share) (hxp : p.scaled = .ok xp) {k : Nat}
    {x : Amount} {scale : PriceScale} (hx : xp[k]? = some x) (hscale : p.scales[k]? = some scale) :
    (share.val - x.val) * base.val < scale.factor.val + base.val := by
  obtain ⟨asset, hasset, rfl⟩ := exists_asset_of_getElem?_scales hscale
  obtain ⟨x', hx', hval⟩ := getElem?_of_scaled_eq_ok hxp hasset
  obtain rfl : x = x' := Option.some.inj (hx.symm.trans hx')
  rw [hval, h asset (List.mem_of_getElem? hasset)]
  exact asset.scale.sub_scaledUnits_nativeUnits_lt share.val

/-- All assets together are not credited with more than their shares. -/
theorem HoldsShares.sum_le (h : p.HoldsShares share) (hxp : p.scaled = .ok xp) :
    (xp.map Word.val).sum ≤ p.assetCount * share.val := by
  have hle : ∀ v ∈ xp.map Word.val, v ≤ share.val := by
    intro v hv
    obtain ⟨x, hx, rfl⟩ := List.mem_map.1 hv
    exact h.le_share hxp hx
  have hsum := List.sum_le_card_nsmul _ _ hle
  rwa [List.length_map, Nat.nsmul_eq_mul, length_of_scaledOf_eq_ok p.length_balances hxp] at hsum

/-- Each asset is credited with its share, if that is a whole number of native units of each. -/
theorem HoldsShares.eq_share (h : p.HoldsShares share)
    (hwhole : ∀ scale ∈ p.scales, scale.factor.val ∣ share.val * base.val)
    (hxp : p.scaled = .ok xp) {x : Amount} (hx : x ∈ xp) : x = share := by
  obtain ⟨asset, hasset, hval⟩ := exists_asset_of_mem_scaled hxp hx
  rw [Word.ext_iff, hval, h.scaledBalance_eq hasset]
  exact PriceScale.scaledUnits_nativeUnits_of_dvd (hwhole _ (List.mem_map_of_mem hasset))

/-- The invariant is then the sum of the shares. -/
theorem HoldsShares.val_invariant (h : p.HoldsShares share)
    (hwhole : ∀ scale ∈ p.scales, scale.factor.val ∣ share.val * base.val) {d : Amount}
    (hd : p.invariant.result = .ok d) : d.val = p.assetCount * share.val := by
  rw [invariant, invariantOf, Logged.result_bind, Logged.result_lift] at hd
  obtain ⟨xp, hxp, hd⟩ := Checked.bind_eq_ok_iff.1 hd
  have hall : ∀ x ∈ xp, x.val = share.val := fun x hx =>
    congrArg Word.val (h.eq_share hwhole hxp hx)
  rw [Curve.val_invariant_of_forall_eq hall hd, length_of_scaledOf_eq_ok p.length_balances hxp]

end

/-- A uniform deposit never credits more than it has. Under a valid configuration it can be split exactly
if the share is an amount in the native units of every asset. Then there is a pool, and its price-scaled
balances can be formed; each is at most the share and falls short of it by less than a native unit and a
price-scaled unit, and together they are at most the deposit. If the share is a whole number of native
units of every asset, as it is with unit scales, each is the share, and the invariant is the sum of the
shares whenever it can be computed. A split that is refused has overflowed, and there is no pool. -/
theorem uniform_deposit_never_overcredits {c : Config} {deposit : Amount} (hvalid : c.Valid)
    (hinitial : c.initial = .uniformDeposit deposit) :
    let share := Config.share deposit c.assetCount.val
    ((∃ balances, c.initialBalances = .ok balances) ↔ c.ShareFits deposit) ∧
    (c.ShareFits deposit → ∃ (start : Pool) (xp : List Amount), ofConfig c = .ok start ∧
      start.scaled = .ok xp ∧ xp.length = c.assetCount.val ∧
      (∀ (k : Nat) (x : Amount) (scale : PriceScale), xp[k]? = some x →
        c.priceScales[k]? = some scale →
        x ≤ share ∧ (share.val - x.val) * base.val < scale.factor.val + base.val) ∧
      (xp.map Word.val).sum ≤ deposit.val ∧
      ((∀ scale ∈ c.priceScales, scale.factor.val ∣ share.val * base.val) ∨
          (∀ scale ∈ c.priceScales, scale = .one) →
        xp = List.replicate c.assetCount.val share ∧
        ∀ d, start.invariant.result = .ok d → d.val = c.assetCount.val * share.val)) ∧
    (¬ c.ShareFits deposit →
      c.initialBalances = .error (.overflow "uniform deposit share") ∧
      ofConfig c = .error (.overflow "uniform deposit share")) := by
  intro share
  have hsplit := Config.exists_initialBalances_eq_ok_iff hinitial
  refine ⟨hsplit, fun hfits => ?_, fun hlarge => ?_⟩
  · obtain ⟨balances, hbalances⟩ := hsplit.2 hfits
    obtain ⟨start, hstart⟩ : ∃ start, ofConfig c = .ok start :=
      ⟨_, ofConfig_eq_ok_iff.2 ⟨hvalid, balances, hbalances, rfl⟩⟩
    have hshares : start.HoldsShares share := holdsShares_of_ofConfig hinitial hstart
    obtain ⟨-, -, -, -, -, hscales, -⟩ := ofConfig_eq_ok hstart
    have hcount : start.assetCount = c.assetCount.val := by
      rw [← length_scales, hscales, hvalid.length_priceScales]
    obtain ⟨xp, hxp⟩ := hshares.exists_scaled_eq_ok
    have hlength : xp.length = c.assetCount.val :=
      (length_of_scaledOf_eq_ok start.length_balances hxp).trans hcount
    rw [← hscales]
    refine ⟨start, xp, hstart, hxp, hlength, fun k x scale hx hscale => ?_, ?_, fun hsome => ?_⟩
    · exact ⟨hshares.le_share hxp (List.mem_of_getElem? hx), hshares.shortfall_lt hxp hx hscale⟩
    · calc (xp.map Word.val).sum ≤ c.assetCount.val * share.val := hcount ▸ hshares.sum_le hxp
        _ ≤ deposit.val := Nat.mul_div_le _ _
    · have hwhole : ∀ scale ∈ start.scales, scale.factor.val ∣ share.val * base.val := by
        rcases hsome with hwhole | hone
        · exact hwhole
        · exact fun scale hscale => hone scale hscale ▸ Nat.dvd_mul_left _ _
      exact ⟨List.eq_replicate_iff.2 ⟨hlength, fun x hx => hshares.eq_share hwhole hxp hx⟩,
        fun d hd => hcount ▸ hshares.val_invariant hwhole hd⟩
  · have hrefused := Config.initialBalances_eq_overflow hinitial hlarge
    exact ⟨hrefused, (ofConfig_eq_bind hvalid).trans
      (Checked.bind_eq_error_iff.2 (.inl hrefused))⟩

/-- A deposit among assets with the scale one, with six decimals and with native units that stand for less
than a price-scaled unit: each asset is credited with a different part of one share. A deposit of ten
among three assets with the scale one credits three to each, and a share that does not fit is refused. -/
theorem uniform_deposit_never_overcredits_three_scales :
    let config (deposit : Amount) (scale₁ scale₂ : PriceScale) : Config := {
      assetCount := .lit 3
      amplification := ⟨.lit 85, by decide⟩
      fee := ⟨.lit 4⟩
      adminFee := ⟨.lit 5000⟩
      initial := .uniformDeposit deposit
      priceScales := [.one, scale₁, scale₂]
      tokenSupply := 0
      maxIterations := Config.defaultMaxIterations }
    let six : PriceScale := ⟨.lit (10 ^ 30), by decide⟩
    let light : PriceScale := ⟨.lit (7 * 10 ^ 17), by decide⟩
    let mixed := config (.lit (10 ^ 19 + 5)) six light
    let even := config (.lit 10) .one .one
    let large := config (.lit (2 ^ 127)) .one ⟨1, by decide⟩
    let xp : List Amount :=
      [.lit 3333333333333333335, .lit 3333333000000000000, .lit 3333333333333333334]
    (mixed.Valid ∧ mixed.ShareFits (.lit (10 ^ 19 + 5)) ∧ ∃ start, ofConfig mixed = .ok start ∧
        start.scaled = .ok xp ∧ (xp.map Word.val).sum ≤ 10 ^ 19 + 5) ∧
      (even.Valid ∧ even.ShareFits (.lit 10) ∧ ∃ start, ofConfig even = .ok start ∧
        start.scaled = .ok [.lit 3, .lit 3, .lit 3] ∧
        ∀ d, start.invariant.result = .ok d → d.val = 9) ∧
      large.Valid ∧ ¬ large.ShareFits (.lit (2 ^ 127)) ∧
        ofConfig large = .error (.overflow "uniform deposit share") := by
  intro config six light mixed even large xp
  have hvalid (deposit : Amount) (scale₁ scale₂ : PriceScale) :
      (config deposit scale₁ scale₂).Valid := Config.validate_eq_ok_iff.1 rfl
  have hmixed : mixed.ShareFits (.lit (10 ^ 19 + 5)) := by decide
  have heven : even.ShareFits (.lit 10) := by decide
  have hlarge : ¬ large.ShareFits (.lit (2 ^ 127)) := by decide
  refine ⟨⟨hvalid _ _ _, hmixed, ?_⟩, ⟨hvalid _ _ _, heven, ?_⟩, hvalid _ _ _, hlarge, ?_⟩
  · obtain ⟨-, hpool, -⟩ := uniform_deposit_never_overcredits (c := mixed) (hvalid _ _ _) rfl
    obtain ⟨start, xp', hstart, hxp', -, -, hsum, -⟩ := hpool hmixed
    have hxp : (ofConfig mixed >>= fun start => start.scaled) = .ok xp := by decide +kernel
    rw [hstart] at hxp
    obtain rfl : xp' = xp := Except.ok.inj (hxp'.symm.trans hxp)
    exact ⟨start, hstart, hxp', hsum⟩
  · obtain ⟨-, hpool, -⟩ := uniform_deposit_never_overcredits (c := even) (hvalid _ _ _) rfl
    obtain ⟨start, xp', hstart, hxp, -, -, -, hwhole⟩ := hpool heven
    obtain ⟨hshares, hd⟩ := hwhole (.inr (by decide))
    rw [hshares] at hxp
    exact ⟨start, hstart, hxp.trans (by decide), fun d h => (hd d h).trans (by decide)⟩
  · exact ((uniform_deposit_never_overcredits (c := large) (hvalid _ _ _) rfl).2.2 hlarge).2

end Pool

end StablePool
