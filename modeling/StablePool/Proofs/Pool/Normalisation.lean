import Mathlib.Algebra.Group.Nat.Defs
import StablePool.Pool.Withdrawal
import StablePool.Proofs.Agreement
import StablePool.Proofs.Pool.Exchange

/-!
# Counting in price-scaled units

If every native unit stands for a whole number of price-scaled units, a pool can be compared with one
that holds the same on the curve, but whose native units are the price-scaled ones. Both have the same
price-scaled balances, so that everything on the curve is the same computation. What an operation takes
in is a whole number of native units and is converted without loss; what it gives out is rounded down
to native units once, at its end.

For scales that are not whole the two pools need not have the same price-scaled balances, and nothing
is stated.
-/

namespace StablePool

open Checked (Agree)

/-- Both assets hold the same on the curve; a native unit of the second is a price-scaled unit. -/
structure Asset.CountsAs (asset asset' : Asset) : Prop where
  isWhole : asset.scale.IsWhole
  scale_eq : asset'.scale = .one
  val_balance : asset'.balance.val = asset.balance.val * asset.scale.unitsPerNative

/-- An asset whose native units are price-scaled units counts as itself. -/
theorem Asset.CountsAs.self {asset asset' : Asset} (h : asset.CountsAs asset') :
    asset'.CountsAs asset' where
  isWhole := h.scale_eq ▸ PriceScale.isWhole_one
  scale_eq := h.scale_eq
  val_balance := by rw [h.scale_eq, PriceScale.unitsPerNative_one, Nat.mul_one]

namespace Pool

/-- Both pools hold the same on the curve, on the same terms; all native units of the second are
price-scaled units. -/
structure CountsAs (p p' : Pool) : Prop where
  terms_eq : p'.terms = p.terms
  tokenSupply_eq : p'.tokenSupply = p.tokenSupply
  assets_countAs : List.Forall₂ Asset.CountsAs p.assets p'.assets

/-- The price-scaled units that a native unit of asset `k` stands for. -/
def unitsPerNative (p : Pool) (k : Nat) : Nat :=
  (p.scales[k]?.map PriceScale.unitsPerNative).getD 1

/-- The price-scaled units of an asset that the pool has. -/
theorem unitsPerNative_of_getElem? {p : Pool} {k : Nat} {asset : Asset}
    (h : p.assets[k]? = some asset) : p.unitsPerNative k = asset.scale.unitsPerNative := by
  rw [unitsPerNative, getElem?_scales h]
  rfl

/-- The price-scaled balances are formed asset by asset. -/
theorem scaled_eq_mapM (p : Pool) :
    p.scaled = p.assets.mapM fun asset => asset.scale.toScaled asset.balance := by
  rw [scaled, scaledOf, balances, scales, List.zip_map', List.mapM_map]
  rfl

/-- Assets that count as others scale to the balances of those. -/
theorem mapM_toScaled_of_countAs {assets assets' : List Asset}
    (h : List.Forall₂ Asset.CountsAs assets assets') :
    assets.mapM (fun asset => asset.scale.toScaled asset.balance) =
      .ok (assets'.map Asset.balance) := by
  induction h with
  | nil => rfl
  | cons hcounts _ ih =>
    rw [List.mapM_cons, hcounts.isWhole.toScaled_eq_ok_iff.2 hcounts.val_balance, ih]
    rfl

/-- Assets whose native units are price-scaled units count as themselves. -/
theorem countAs_self {assets assets' : List Asset}
    (h : List.Forall₂ Asset.CountsAs assets assets') :
    List.Forall₂ Asset.CountsAs assets' assets' := by
  induction h with
  | nil => exact .nil
  | cons hcounts _ ih => exact .cons hcounts.self ih

namespace CountsAs

variable {p p' : Pool}

/-- Both pools have the same number of assets. -/
theorem assetCount_eq (h : p.CountsAs p') : p'.assetCount = p.assetCount :=
  h.assets_countAs.length_eq.symm

/-- The second pool counts as itself. -/
theorem self (h : p.CountsAs p') : p'.CountsAs p' where
  terms_eq := rfl
  tokenSupply_eq := rfl
  assets_countAs := countAs_self h.assets_countAs

/-- The balances of the second pool are the price-scaled balances of the first. -/
theorem scaled_eq (h : p.CountsAs p') : p.scaled = .ok p'.balances := by
  rw [scaled_eq_mapM, mapM_toScaled_of_countAs h.assets_countAs, balances]

/-- The balances of the second pool are its own price-scaled balances. -/
theorem scaled_eq_self (h : p.CountsAs p') : p'.scaled = .ok p'.balances := h.self.scaled_eq

/-- Both pools have the same invariant of given price-scaled balances. -/
theorem curveInvariant_eq (h : p.CountsAs p') (xp : List Amount) :
    p'.curveInvariant xp = p.curveInvariant xp := by
  rw [curveInvariant, curveInvariant, h.terms_eq]

/-- Both pools have the same invariant. -/
theorem invariant_eq (h : p.CountsAs p') : p'.invariant = p.invariant := by
  have hscaled : p'.scaledOf p'.balances = p.scaledOf p.balances :=
    h.scaled_eq_self.trans h.scaled_eq.symm
  simp only [invariant, invariantOf, hscaled, h.curveInvariant_eq]

/-- A token stands for the same share of both invariants. -/
theorem virtualPrice_eq (h : p.CountsAs p') : p'.virtualPrice = p.virtualPrice := by
  rw [virtualPrice, virtualPrice, h.invariant_eq, h.tokenSupply_eq]

/-- Two assets that were looked up in both pools, at the same state of the curve. -/
structure OnPair (p : Pool) (i j : Nat) (pair pair' : Pair) : Prop where
  source_countsAs : pair.source.CountsAs pair'.source
  target_countsAs : pair.target.CountsAs pair'.target
  unitsPerNative_source : p.unitsPerNative i = pair.source.scale.unitsPerNative
  unitsPerNative_target : p.unitsPerNative j = pair.target.scale.unitsPerNative
  xp_eq : pair'.xp = pair.xp
  d_eq : pair'.d = pair.d
  x_eq : pair'.x = pair.x
  y_eq : pair'.y = pair.y
  val_x : pair.x.val = pair.source.balance.val * pair.source.scale.unitsPerNative

/-- Looking up two assets succeeds in both pools or in neither. -/
theorem agree_pair (h : p.CountsAs p') (i j : Nat) :
    Agree (OnPair p i j) (p.pair i j).result (p'.pair i j).result := by
  simp only [pair, Logged.result_bind, Logged.result_lift, Logged.result_pure, h.scaled_eq,
    h.scaled_eq_self, h.curveInvariant_eq]
  refine (Checked.agree_entry h.assets_countAs i).bind fun source source' hsource hsource' hs => ?_
  refine (Checked.agree_entry h.assets_countAs j).bind fun target target' htarget _ ht => ?_
  refine .bind_same fun _ _ => ?_
  refine .bind_of_ok rfl rfl ?_
  refine .bind_same fun d _ => ?_
  refine .bind_same fun x hx => ?_
  refine .bind_same fun y hy => .pure ?_
  have hx : x.val = source.balance.val * source.scale.unitsPerNative := by
    have hbalance := getElem?_balances (entry_eq_ok_iff.1 hsource')
    obtain rfl : x = source'.balance := Option.some.inj ((entry_eq_ok_iff.1 hx).symm.trans hbalance)
    exact hs.val_balance
  exact ⟨hs, ht, unitsPerNative_of_getElem? (entry_eq_ok_iff.1 hsource),
    unitsPerNative_of_getElem? (entry_eq_ok_iff.1 htarget), rfl, rfl, rfl, rfl, hx⟩

/-- A price-scaled amount converts to itself in the second asset, and to what that is in native units
of the first, rounded down. -/
theorem agree_toNative {asset asset' : Asset} (h : asset.CountsAs asset') (scaled : Amount) :
    Agree (fun native native' => native'.val = scaled.val ∧
        native.val = native'.val / asset.scale.unitsPerNative)
      (asset.scale.toNative scaled) (asset'.scale.toNative scaled) := by
  obtain ⟨native, hnative, hval⟩ := h.isWhole.exists_toNative_eq_ok scaled
  obtain ⟨native', hnative', hval'⟩ := h.self.isWhole.exists_toNative_eq_ok scaled
  rw [h.scale_eq, PriceScale.unitsPerNative_one, Nat.div_one] at hval'
  rw [hnative, hnative']
  exact .ok ⟨hval', by rw [hval, hval']⟩

/-- The quotes of an exchange of the same price-scaled input agree: what is given out is rounded down
in the first pool, and what the source holds afterwards is exact. -/
theorem agree_quoteSwap (h : p.CountsAs p') {i j : Nat} {dx dx' : Amount}
    (hdx : dx'.val = dx.val * p.unitsPerNative i) :
    Agree (fun q q' => q.amountOut.val = q'.amountOut.val / p.unitsPerNative j ∧
        q.fee.val = q'.fee.val / p.unitsPerNative j ∧
        q.balanceOut.val = q'.balanceOut.val / p.unitsPerNative j ∧
        q.balanceIn.val * p.unitsPerNative i = q'.balanceIn.val)
      (p.quoteSwap i j dx).result (p'.quoteSwap i j dx').result := by
  simp only [quoteSwap, Logged.result_bind, Logged.result_lift, Logged.result_pure]
  refine (h.agree_pair i j).bind fun pair pair' _ _ hpair => ?_
  rw [hpair.xp_eq, hpair.d_eq, hpair.x_eq, hpair.y_eq, h.terms_eq]
  have hsource := hpair.source_countsAs
  have hpaid : pair.source.scale.toScaled dx = .ok dx' := by
    rw [hsource.isWhole.toScaled_eq_ok_iff, hdx, hpair.unitsPerNative_source]
  have hpaid' : pair'.source.scale.toScaled dx' = .ok dx' := by
    rw [hsource.scale_eq, PriceScale.isWhole_one.toScaled_eq_ok_iff, PriceScale.unitsPerNative_one,
      Nat.mul_one]
  refine .bind_of_ok hpaid hpaid' ?_
  refine .bind_same fun x hx => ?_
  refine .bind_same fun y _ => ?_
  refine .bind_same fun difference _ => ?_
  refine .bind_same fun gross _ => ?_
  refine .bind_same fun fee _ => ?_
  refine .bind_same fun kept _ => ?_
  have htarget := hpair.target_countsAs
  refine (agree_toNative htarget _).bind fun amountOut amountOut' _ _ hamountOut => ?_
  refine (agree_toNative htarget _).bind fun nativeFee nativeFee' _ _ hnativeFee => ?_
  refine (agree_toNative hsource _).bind fun balanceIn balanceIn' _ _ hbalanceIn => ?_
  refine (agree_toNative htarget _).bind fun balanceOut balanceOut' _ _ hbalanceOut => .pure ?_
  obtain ⟨-, hamountOut⟩ := hamountOut
  obtain ⟨-, hnativeFee⟩ := hnativeFee
  obtain ⟨hunits, hbalanceIn⟩ := hbalanceIn
  obtain ⟨-, hbalanceOut⟩ := hbalanceOut
  rw [← hpair.unitsPerNative_target] at hamountOut hnativeFee hbalanceOut
  refine ⟨hamountOut, hnativeFee, hbalanceOut, ?_⟩
  -- The source held and is paid whole native units, so that nothing is rounded.
  have hx : x.val = (pair.source.balance.val + dx.val) * p.unitsPerNative i := by
    rw [Word.add_eq_ok_iff.1 hx, hpair.val_x, hdx, hpair.unitsPerNative_source, Nat.add_mul]
  rw [hbalanceIn, hunits, hx, ← hpair.unitsPerNative_source]
  exact Nat.div_mul_cancel (Nat.dvd_mul_left _ _)

/-- The inputs quoted for the same price-scaled output agree: that of the first pool is rounded down. -/
theorem agree_quoteReverseSwap (h : p.CountsAs p') {i j : Nat} {out out' : Amount}
    (hout : out'.val = out.val * p.unitsPerNative j) :
    Agree (fun dx dx' => dx.val = dx'.val / p.unitsPerNative i) (p.quoteReverseSwap i j out).result
      (p'.quoteReverseSwap i j out').result := by
  simp only [quoteReverseSwap, Logged.result_bind, Logged.result_lift]
  refine (h.agree_pair i j).bind fun pair pair' _ _ hpair => ?_
  rw [hpair.xp_eq, hpair.d_eq, hpair.x_eq, hpair.y_eq, h.terms_eq]
  have htarget := hpair.target_countsAs
  have hnet : pair.target.scale.toScaled out = .ok out' := by
    rw [htarget.isWhole.toScaled_eq_ok_iff, hout, hpair.unitsPerNative_target]
  have hnet' : pair'.target.scale.toScaled out' = .ok out' := by
    rw [htarget.scale_eq, PriceScale.isWhole_one.toScaled_eq_ok_iff, PriceScale.unitsPerNative_one,
      Nat.mul_one]
  refine .bind_of_ok hnet hnet' ?_
  refine .bind_same fun gross _ => ?_
  refine .bind_same fun y _ => ?_
  refine .bind_same fun x _ => ?_
  refine .bind_same fun difference _ => ?_
  refine .bind_same fun dx _ => ?_
  rw [hpair.unitsPerNative_source]
  exact (agree_toNative hpair.source_countsAs dx).mono fun _ _ hdx => hdx.2

/-- The payouts quoted for the same tokens agree: those of the first pool are rounded down. -/
theorem agree_quoteWithdrawAsset (h : p.CountsAs p') (tokenAmount : Amount) (i : Nat) :
    Agree (fun q q' => q.amount.val = q'.amount.val / p.unitsPerNative i ∧
        q.feeFreeAmount.val = q'.feeFreeAmount.val / p.unitsPerNative i)
      (p.quoteWithdrawAsset tokenAmount i).result (p'.quoteWithdrawAsset tokenAmount i).result := by
  simp only [quoteWithdrawAsset, Logged.result_bind, Logged.result_mapM, Logged.result_lift,
    Logged.result_pure, h.curveInvariant_eq, h.scaled_eq, h.scaled_eq_self, h.terms_eq,
    h.tokenSupply_eq, h.assetCount_eq]
  refine (Checked.agree_entry h.assets_countAs i).bind fun asset asset' hasset _ hcounts => ?_
  refine .bind_of_ok rfl rfl ?_
  refine .bind_same fun d0 _ => ?_
  refine .bind_same fun share _ => ?_
  refine .bind_same fun d1 _ => ?_
  refine .bind_same fun free _ => ?_
  refine .bind_same fun rate _ => ?_
  refine .bind_same fun reduced _ => ?_
  refine .bind_same fun y _ => ?_
  refine .bind_same fun left _ => ?_
  refine .bind_same fun difference _ => ?_
  refine .bind_same fun paid _ => ?_
  refine .bind_same fun x _ => ?_
  refine .bind_same fun paidFree _ => ?_
  rw [unitsPerNative_of_getElem? (entry_eq_ok_iff.1 hasset)]
  refine (agree_toNative hcounts paid).bind fun amount amount' _ _ hamount => ?_
  refine (agree_toNative hcounts paidFree).bind fun feeFree feeFree' _ _ hfeeFree => ?_
  exact .pure ⟨hamount.2, hfeeFree.2⟩

end CountsAs

/-- Counting in price-scaled units changes nothing but the units: a pool with whole scales and the
pool that holds the same in price-scaled units have the same invariant and token price, and every
quote either is refused in both with the same cause or yields in both the same amounts, rounded down
to native units. -/
theorem quotes_in_scaled_units {p p' : Pool} (h : p.CountsAs p') :
    p'.invariant.result = p.invariant.result ∧ p'.virtualPrice.result = p.virtualPrice.result ∧
      (∀ (i j : Nat) (dx dx' : Amount), dx'.val = dx.val * p.unitsPerNative i →
        Agree (fun q q' => q.amountOut.val = q'.amountOut.val / p.unitsPerNative j ∧
            q.fee.val = q'.fee.val / p.unitsPerNative j ∧
            q.balanceOut.val = q'.balanceOut.val / p.unitsPerNative j ∧
            q.balanceIn.val * p.unitsPerNative i = q'.balanceIn.val)
          (p.quoteSwap i j dx).result (p'.quoteSwap i j dx').result) ∧
      (∀ (i j : Nat) (out out' : Amount), out'.val = out.val * p.unitsPerNative j →
        Agree (fun dx dx' => dx.val = dx'.val / p.unitsPerNative i)
          (p.quoteReverseSwap i j out).result (p'.quoteReverseSwap i j out').result) ∧
      ∀ (tokenAmount : Amount) (i : Nat),
        Agree (fun q q' => q.amount.val = q'.amount.val / p.unitsPerNative i ∧
            q.feeFreeAmount.val = q'.feeFreeAmount.val / p.unitsPerNative i)
          (p.quoteWithdrawAsset tokenAmount i).result
          (p'.quoteWithdrawAsset tokenAmount i).result :=
  ⟨congrArg Logged.result h.invariant_eq, congrArg Logged.result h.virtualPrice_eq,
    fun _ _ _ _ hdx => h.agree_quoteSwap hdx, fun _ _ _ _ hout => h.agree_quoteReverseSwap hout,
    h.agree_quoteWithdrawAsset⟩

/-- A pool of two assets with 18 and 6 decimals and the same pool in price-scaled units: an exchange, a
reverse quote and a withdrawal of the second asset alone are quoted alike, and an asset that there is
not is refused in both. -/
theorem quotes_in_scaled_units_mixed_decimals :
    let terms : Terms := {
      amplification := ⟨.lit 200, by decide⟩
      fee := ⟨.lit 4⟩
      adminFee := ⟨.lit 5000⟩
      maxIterations := Curve.defaultBound
      fee_isValid := by decide
      adminFee_isValid := by decide }
    let p : Pool := {
      terms
      assets := [⟨.lit (10 ^ 18), .lit 7, .one⟩, ⟨.lit 3000000, 0, ⟨.lit (10 ^ 30), by decide⟩⟩]
      tokenSupply := .lit (4 * 10 ^ 18) }
    let p' : Pool := {
      terms
      assets := [⟨.lit (10 ^ 18), 0, .one⟩, ⟨.lit (3 * 10 ^ 18), 0, .one⟩]
      tokenSupply := .lit (4 * 10 ^ 18) }
    let dx : Amount := .lit (10 ^ 17)
    let quote : SwapQuote := {
      amountOut := .lit 100748
      fee := .lit 40
      balanceIn := .lit (11 * 10 ^ 17)
      balanceOut := .lit 2899251 }
    let quote' : SwapQuote := {
      amountOut := .lit 100748460865861177
      fee := .lit 40315510550564
      balanceIn := .lit (11 * 10 ^ 17)
      balanceOut := .lit 2899251539134138822 }
    let payout : AssetWithdrawal := ⟨.lit 1001451, .lit 1001552⟩
    let payout' : AssetWithdrawal := ⟨.lit 1001451569323287761, .lit 1001552089288118255⟩
    p.CountsAs p' ∧ p'.virtualPrice.result = p.virtualPrice.result ∧
      (p.quoteSwap 0 1 dx).result = .ok quote ∧ (p'.quoteSwap 0 1 dx).result = .ok quote' ∧
      quote.amountOut.val = quote'.amountOut.val / p.unitsPerNative 1 ∧
      (p.quoteReverseSwap 1 0 dx).result = .ok (.lit 101036) ∧
      (p'.quoteReverseSwap 1 0 dx).result = .ok (.lit 101036965397631677) ∧
      101036 = 101036965397631677 / p.unitsPerNative 1 ∧
      (p.quoteSwap 0 2 dx).result = .error (.invalidAsset 2 2) ∧
      (p'.quoteSwap 0 2 dx).result = .error (.invalidAsset 2 2) ∧
      payout.amount.val = payout'.amount.val / p.unitsPerNative 1 := by
  intro terms p p' dx quote quote' payout payout'
  have hcounts : p.CountsAs p' :=
    ⟨rfl, rfl, .cons ⟨by decide, rfl, by decide⟩ (.cons ⟨by decide, rfl, by decide⟩ .nil)⟩
  have hunits : dx.val = dx.val * p.unitsPerNative 0 := by decide
  have hquote : (p.quoteSwap 0 1 dx).result = .ok quote := by decide +kernel
  have hquote' : (p'.quoteSwap 0 1 dx).result = .ok quote' := by decide +kernel
  have hreverse : (p.quoteReverseSwap 1 0 dx).result = .ok (.lit 101036) := by decide +kernel
  have hreverse' : (p'.quoteReverseSwap 1 0 dx).result = .ok (.lit 101036965397631677) := by
    decide +kernel
  have hpayout : (p.quoteWithdrawAsset (.lit (10 ^ 18)) 1).result = .ok payout := by decide +kernel
  have hpayout' : (p'.quoteWithdrawAsset (.lit (10 ^ 18)) 1).result = .ok payout' := by
    decide +kernel
  obtain ⟨-, hprice, hswap, hinput, hasset⟩ := quotes_in_scaled_units hcounts
  exact ⟨hcounts, hprice, hquote, hquote',
    ((hswap 0 1 dx dx hunits).rel_of_eq_ok hquote hquote').1, hreverse, hreverse',
    (hinput 1 0 dx dx hunits).rel_of_eq_ok hreverse hreverse', by decide +kernel, by decide +kernel,
    ((hasset _ 1).rel_of_eq_ok hpayout hpayout').1⟩

end Pool

end StablePool
