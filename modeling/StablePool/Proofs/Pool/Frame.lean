import StablePool.Pool.Ledger
import StablePool.Proofs.Pool.Atomicity
import StablePool.Proofs.Pool.Exchange
import StablePool.Proofs.Pool.Liquidity

/-!
# What no history changes

Commands move balances and tokens. The number of the assets, their order and their price scales stay
as the configuration set them, whatever is asked of the pool. What a configuration gives is a function
of its starting balances, if it is valid.
-/

namespace StablePool.Pool

/-- A command that replies with its own kind of value has yielded that value. -/
theorem exists_of_map_reply_eq_ok {α : Type} {make : α → Reply} {outcome : Logged (α × Pool)}
    {reply : Reply} {after : Pool}
    (h : (Prod.map make id <$> outcome).result = .ok (reply, after)) :
    ∃ value, outcome.result = .ok (value, after) ∧ reply = make value := by
  rw [Logged.result_map] at h
  cases hresult : outcome.result with
  | error cause => simp [hresult, Except.map] at h
  | ok yielded =>
    rw [hresult] at h
    obtain ⟨rfl, rfl⟩ := Prod.mk.inj (Except.ok.inj h)
    exact ⟨yielded.1, rfl, rfl⟩

section

variable {p after : Pool}

/-- A pool that has no further assets and each asset with its old scale has the old scales. -/
theorem scales_eq_of_forall (hcount : after.assetCount ≤ p.assetCount)
    (hscale : ∀ (k : Nat) (asset : Asset), p.assets[k]? = some asset →
      ∃ asset', after.assets[k]? = some asset' ∧ asset'.scale = asset.scale) :
    after.scales = p.scales := by
  apply List.ext_getElem?
  intro k
  rw [scales, scales, List.getElem?_map, List.getElem?_map]
  cases hasset : p.assets[k]? with
  | none =>
    have hk : after.assets[k]? = none :=
      List.getElem?_eq_none (Nat.le_trans hcount (List.getElem?_eq_none_iff.1 hasset))
    rw [hk]
  | some asset =>
    obtain ⟨asset', hafter, heq⟩ := hscale k asset hasset
    rw [hafter, Option.map_some, Option.map_some, heq]

/-- Carrying out quoted entries adds no asset. -/
theorem length_le_of_settleAssets_eq_ok {entries : List AssetQuote} {assets : List Asset}
    (h : p.settleAssets entries = .ok assets) : assets.length ≤ p.assetCount := by
  rw [Checked.length_eq_of_mapM_eq_ok h, List.length_zip]
  exact Nat.min_le_left _ _

/-- An exchange leaves the price scales as they were. -/
theorem scales_of_swapAtLeast {i j : Nat} {dx minimum out : Amount}
    (h : (p.swapAtLeast i j dx minimum).result = .ok (out, after)) : after.scales = p.scales := by
  refine scales_eq_of_forall ?_ fun k asset hasset => ?_
  · obtain ⟨q, -, -, -, rfl⟩ := swapAtLeast_eq_ok h
    simp [assetCount, setBalance]
  · obtain ⟨balance, hafter, -⟩ := getElem?_of_swapAtLeast_eq_ok h hasset
    exact ⟨_, hafter, rfl⟩

/-- A deposit leaves the price scales as they were. -/
theorem scales_of_depositAtLeast {amounts : List Amount} {minimum mint : Amount}
    (h : (p.depositAtLeast amounts minimum).result = .ok (mint, after)) :
    after.scales = p.scales := by
  refine scales_eq_of_forall ?_ fun k asset hasset => ?_
  · obtain ⟨q, tokenSupply, assets, -, -, -, -, -, hassets, rfl⟩ := depositAtLeast_eq_ok h
    exact length_le_of_settleAssets_eq_ok hassets
  · obtain ⟨_, _, _, _, -, hafter, -⟩ := getElem?_of_depositAtLeast_eq_ok h hasset
    exact ⟨_, hafter, rfl⟩

/-- A proportional withdrawal leaves the price scales as they were. -/
theorem scales_of_withdraw {amount : Amount} {shares : List Amount}
    (h : (p.withdraw amount).result = .ok (shares, after)) : after.scales = p.scales := by
  refine scales_eq_of_forall ?_ fun k asset hasset => ?_
  · obtain ⟨tokenSupply, assets, -, -, -, hassets, rfl⟩ := withdraw_eq_ok h
    rw [assetCount, Checked.length_eq_of_mapM_eq_ok hassets, List.length_zip]
    exact Nat.min_le_left _ _
  · obtain ⟨_, _, -, -, hafter, -⟩ := getElem?_of_withdraw_eq_ok h hasset
    exact ⟨_, hafter, rfl⟩

/-- A withdrawal of chosen amounts leaves the price scales as they were. -/
theorem scales_of_withdrawAmounts {amounts : List Amount} {burn : Amount}
    (h : (p.withdrawAmounts amounts).result = .ok (burn, after)) : after.scales = p.scales := by
  refine scales_eq_of_forall ?_ fun k asset hasset => ?_
  · obtain ⟨q, tokenSupply, assets, -, -, -, hassets, rfl⟩ := withdrawAmounts_eq_ok h
    exact length_le_of_settleAssets_eq_ok hassets
  · obtain ⟨_, _, _, _, -, hafter, -⟩ := getElem?_of_withdrawAmounts_eq_ok h hasset
    exact ⟨_, hafter, rfl⟩

/-- A withdrawal of one asset leaves the price scales as they were. -/
theorem scales_of_withdrawAsset {tokenAmount minimum out : Amount} {i : Nat}
    (h : (p.withdrawAsset tokenAmount i minimum).result = .ok (out, after)) :
    after.scales = p.scales := by
  refine scales_eq_of_forall ?_ fun k asset hasset => ?_
  · obtain ⟨_, _, _, _, _, _, -, -, -, -, -, -, -, -, rfl⟩ := withdrawAsset_eq_ok h
    simp [assetCount]
  · obtain ⟨_, _, _, hafter, -⟩ := getElem?_of_withdrawAsset_eq_ok h hasset
    exact ⟨_, hafter, rfl⟩

/-- No command changes the price scales. -/
theorem scales_of_perform {c : Command} {reply : Reply}
    (h : (p.perform c).result = .ok (reply, after)) : after.scales = p.scales := by
  cases c with
  | swap i j dx | swapAtLeast i j dx minimum =>
    obtain ⟨out, hout, -⟩ := exists_of_map_reply_eq_ok h
    exact scales_of_swapAtLeast hout
  | deposit amounts | depositAtLeast amounts minimum =>
    obtain ⟨mint, hmint, -⟩ := exists_of_map_reply_eq_ok h
    exact scales_of_depositAtLeast hmint
  | withdraw amount =>
    obtain ⟨shares, hshares, -⟩ := exists_of_map_reply_eq_ok h
    exact scales_of_withdraw hshares
  | withdrawAmounts amounts =>
    obtain ⟨burn, hburn, -⟩ := exists_of_map_reply_eq_ok h
    exact scales_of_withdrawAmounts hburn
  | withdrawAsset tokenAmount i minimum =>
    obtain ⟨out, hout, -⟩ := exists_of_map_reply_eq_ok h
    exact scales_of_withdrawAsset hout

end

/-- Serving a request leaves the price scales as they were. -/
theorem scales_respond (p : Pool) (request : Request) :
    (p.respond request).2.scales = p.scales := by
  cases request with
  | query q => rfl
  | command c =>
    cases hresult : (p.perform c).result with
    | error cause => rw [respond_command_of_error hresult]
    | ok yielded =>
      rw [respond_command_of_ok hresult]
      exact scales_of_perform hresult

/-- A history leaves the price scales as they were. -/
theorem scales_after (p : Pool) (requests : List Request) :
    (p.after requests).scales = p.scales := by
  induction requests generalizing p with
  | nil => rfl
  | cons request rest ih => exact (ih (p.respond request).2).trans (scales_respond p request)

/-- A valid configuration has one starting balance for each asset. -/
theorem length_initialBalances {c : Config} {balances : List Amount} (hvalid : c.Valid)
    (h : c.initialBalances = .ok balances) : balances.length = c.assetCount.val := by
  have hmatch := hvalid.initial_match
  unfold Config.initialBalances at h
  split at h
  · next given heq =>
    obtain rfl := Except.ok.inj h
    rwa [heq] at hmatch
  · rw [Checked.length_eq_of_mapM_eq_ok h, hvalid.length_priceScales]

/-- The pool that a valid configuration makes of its starting balances. -/
def startingWith {c : Config} (hvalid : c.Valid) (balances : List Amount) : Pool where
  terms := {
    amplification := c.amplification
    fee := c.fee
    adminFee := c.adminFee
    maxIterations := c.maxIterations.val
    fee_isValid := hvalid.fee_isValid
    adminFee_isValid := hvalid.adminFee_isValid }
  assets := balances.zipWith (fun balance scale => ⟨balance, 0, scale⟩) c.priceScales
  tokenSupply := c.tokenSupply

/-- A valid configuration gives a pool if it has starting balances. -/
theorem ofConfig_eq_bind {c : Config} (hvalid : c.Valid) :
    ofConfig c = c.initialBalances >>= fun balances => pure (startingWith hvalid balances) := by
  have hcheck : c.validate = .ok () := Config.validate_eq_ok_iff.2 hvalid
  unfold ofConfig
  split
  · next cause hrefused => exact absurd (hcheck.symm.trans hrefused) nofun
  · rfl

/-- A configuration gives a pool exactly if it is valid and has starting balances. -/
theorem ofConfig_eq_ok_iff {c : Config} {start : Pool} :
    ofConfig c = .ok start ↔ ∃ (hvalid : c.Valid) (balances : List Amount),
      c.initialBalances = .ok balances ∧ startingWith hvalid balances = start := by
  constructor
  · intro h
    have hvalid : c.Valid := by
      unfold ofConfig at h
      split at h
      · cases h
      · next hcheck => exact Config.validate_eq_ok_iff.1 hcheck
    rw [ofConfig_eq_bind hvalid] at h
    obtain ⟨balances, hbalances, hstart⟩ := Checked.bind_eq_ok_iff.1 h
    exact ⟨hvalid, balances, hbalances, Checked.pure_eq_ok_iff.1 hstart⟩
  · rintro ⟨hvalid, balances, hbalances, rfl⟩
    rw [ofConfig_eq_bind hvalid]
    exact Checked.bind_eq_ok_iff.2 ⟨balances, hbalances, rfl⟩

/-- What a configuration makes of itself: it is valid, and the pool has its terms, price scales and
tokens. -/
theorem ofConfig_eq_ok {c : Config} {start : Pool} (h : ofConfig c = .ok start) :
    c.Valid ∧ start.terms.amplification = c.amplification ∧ start.terms.fee = c.fee ∧
      start.terms.adminFee = c.adminFee ∧ start.terms.maxIterations = c.maxIterations.val ∧
      start.scales = c.priceScales ∧ start.tokenSupply = c.tokenSupply := by
  obtain ⟨hvalid, balances, hbalances, rfl⟩ := ofConfig_eq_ok_iff.1 h
  have hlength : c.priceScales.length ≤ balances.length :=
    Nat.le_of_eq (hvalid.length_priceScales.trans (length_initialBalances hvalid hbalances).symm)
  have hscales : (startingWith hvalid balances).scales = c.priceScales := by
    calc _ = (balances.zip c.priceScales).map Prod.snd := by
          rw [List.zip, List.map_zipWith, scales, startingWith, List.map_zipWith]
      _ = c.priceScales := List.map_snd_zip hlength
  exact ⟨hvalid, rfl, rfl, rfl, rfl, hscales, rfl⟩

/-- The price scales of a new pool are those of its configuration. -/
theorem mem_priceScales_of_ofConfig {c : Config} {start : Pool} (h : ofConfig c = .ok start)
    {scale : PriceScale} (hscale : scale ∈ start.scales) : scale ∈ c.priceScales := by
  obtain ⟨-, -, -, -, -, hscales, -⟩ := ofConfig_eq_ok h
  rwa [hscales] at hscale

end StablePool.Pool
