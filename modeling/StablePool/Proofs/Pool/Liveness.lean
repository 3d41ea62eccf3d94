import StablePool.Proofs.Curve.Computable
import StablePool.Proofs.Pool.Exchange

/-!
# Live and drained pools

A pool is live if every asset has a positive price-scaled balance, and drained if none has. In both
cases its invariant is never refused for a division by zero. A pool that is neither is stranded: its
invariant is refused, and with it every exchange, deposit and uneven withdrawal.

Conversely, balances whose invariant was computed are all zero or all positive in price-scaled units,
which is what the commands that compute one know about the balances they leave.
-/

namespace StablePool

/-- The balance of an asset in price-scaled units. -/
def Asset.scaledBalance (asset : Asset) : Nat := asset.scale.scaledUnits asset.balance.val

namespace Pool

/-- Every asset has a positive price-scaled balance. -/
def IsLive (p : Pool) : Prop := ∀ asset ∈ p.assets, 0 < asset.scaledBalance

/-- No asset has a positive price-scaled balance. -/
def IsDrained (p : Pool) : Prop := ∀ asset ∈ p.assets, asset.scaledBalance = 0

instance (p : Pool) : Decidable p.IsLive :=
  inferInstanceAs (Decidable (∀ asset ∈ p.assets, 0 < asset.scaledBalance))

instance (p : Pool) : Decidable p.IsDrained :=
  inferInstanceAs (Decidable (∀ asset ∈ p.assets, asset.scaledBalance = 0))

variable {p after : Pool}

section

variable {xp balances : List Amount}

/-- Each price-scaled balance is that of one asset. -/
theorem exists_asset_of_mem_scaled (h : p.scaled = .ok xp) {x : Amount} (hx : x ∈ xp) :
    ∃ asset ∈ p.assets, x.val = asset.scaledBalance := by
  obtain ⟨k, hk⟩ := List.mem_iff_getElem?.1 hx
  obtain ⟨hlt, -⟩ := List.getElem?_eq_some_iff.1 hk
  rw [length_of_scaledOf_eq_ok p.length_balances h] at hlt
  have hasset : p.assets[k]? = some p.assets[k] := List.getElem?_eq_getElem hlt
  obtain ⟨x', hx', hval⟩ := getElem?_of_scaled_eq_ok h hasset
  obtain rfl : x = x' := Option.some.inj (hk.symm.trans hx')
  exact ⟨p.assets[k], List.getElem_mem hlt, hval⟩

/-- The price-scaled balances of a live pool are positive. -/
theorem IsLive.allPositive (hlive : p.IsLive) (h : p.scaled = .ok xp) : Curve.AllPositive xp := by
  intro x hx
  obtain ⟨asset, hmem, hval⟩ := exists_asset_of_mem_scaled h hx
  exact hval ▸ hlive asset hmem

/-- The price-scaled balances of a drained pool are zero. -/
theorem IsDrained.allZero (hdrained : p.IsDrained) (h : p.scaled = .ok xp) : Curve.AllZero xp := by
  intro x hx
  obtain ⟨asset, hmem, hval⟩ := exists_asset_of_mem_scaled h hx
  exact hval ▸ hdrained asset hmem

/-- A live pool has a positive invariant, if it has one. -/
theorem IsLive.invariant_pos (hlive : p.IsLive) {d : Amount} (h : p.invariant.result = .ok d) :
    0 < d.val := by
  rw [invariant, invariantOf, Logged.result_bind, Logged.result_lift] at h
  obtain ⟨xp, hxp, hd⟩ := Checked.bind_eq_ok_iff.1 h
  exact (hlive.allPositive hxp).invariant_pos hd

/-- The invariant of a live or drained pool is never refused for a division by zero. -/
theorem invariant_ne_divisionByZero (h : p.IsLive ∨ p.IsDrained) (step : String) :
    p.invariant.result ≠ .error (.divisionByZero step) := by
  have hrefuses : Checked.RefusesOnly (¬ ·.IsDivision) p.invariant.result := by
    rw [invariant, invariantOf, Logged.result_bind, Logged.result_lift]
    refine Checked.RefusesOnly.bind (Checked.refusesOnly_mapM fun scaled _ => ?_) fun xp hxp => ?_
    · exact Word.refusesOnly_mulDiv_of_pos (by decide) not_false
    · exact Curve.refusesOnly_invariant _ _
        (h.symm.imp (fun hdrained => hdrained.allZero hxp) fun hlive => hlive.allPositive hxp)
  exact fun hzero => hrefuses _ hzero trivial

/-- Given balances of the assets of a pool are positive in price-scaled units. -/
def ScaledPositive (p : Pool) (balances : List Amount) : Prop :=
  ∀ (k : Nat) (asset : Asset) (balance : Amount), p.assets[k]? = some asset →
    balances[k]? = some balance → 0 < asset.scale.scaledUnits balance.val

/-- Given balances of the assets of a pool are zero in price-scaled units. -/
def ScaledZero (p : Pool) (balances : List Amount) : Prop :=
  ∀ (k : Nat) (asset : Asset) (balance : Amount), p.assets[k]? = some asset →
    balances[k]? = some balance → asset.scale.scaledUnits balance.val = 0

/-- What holds of every price-scaled balance holds of each balance in price-scaled units. -/
theorem forall_scaledUnits_of_scaledOf {P : Nat → Prop} (h : p.scaledOf balances = .ok xp)
    (hall : ∀ x ∈ xp, P x.val) (k : Nat) (asset : Asset) (balance : Amount)
    (hasset : p.assets[k]? = some asset) (hbalance : balances[k]? = some balance) :
    P (asset.scale.scaledUnits balance.val) := by
  obtain ⟨x, hx, hval⟩ := getElem?_of_scaledOf_eq_ok h hasset hbalance
  exact hval ▸ hall x (List.mem_of_getElem? hx)

/-- Balances with an invariant are all zero, and so is the invariant, or they are all positive. -/
theorem scaledZero_or_scaledPositive {d : Amount} (h : (p.invariantOf balances).result = .ok d) :
    p.ScaledZero balances ∧ d.val = 0 ∨ p.ScaledPositive balances := by
  rw [invariantOf, Logged.result_bind, Logged.result_lift] at h
  obtain ⟨xp, hxp, hd⟩ := Checked.bind_eq_ok_iff.1 h
  rcases Curve.allZero_or_allPositive hd with ⟨hzero, hd⟩ | hpositive
  · exact .inl ⟨forall_scaledUnits_of_scaledOf (P := (· = 0)) hxp hzero, hd⟩
  · exact .inr (forall_scaledUnits_of_scaledOf (P := (0 < ·)) hxp hpositive)

end

/-- What holds of the successor of each asset holds of every asset, if no asset is added. -/
theorem forall_of_scales_eq {P : Nat → Asset → Prop} (hscales : after.scales = p.scales)
    (h : ∀ (k : Nat) (asset : Asset), p.assets[k]? = some asset →
      ∃ asset', after.assets[k]? = some asset' ∧ P k asset') :
    ∀ (k : Nat) (asset' : Asset), after.assets[k]? = some asset' → P k asset' := by
  intro k asset' hk
  obtain ⟨hlt, -⟩ := List.getElem?_eq_some_iff.1 hk
  have hcount : after.assetCount = p.assetCount := by
    rw [← length_scales, hscales, length_scales]
  have hlt : k < p.assets.length := Nat.lt_of_lt_of_eq hlt hcount
  obtain ⟨asset'', hafter, hP⟩ := h k p.assets[k] (List.getElem?_eq_getElem hlt)
  obtain rfl : asset' = asset'' := Option.some.inj (hk.symm.trans hafter)
  exact hP

/-- What holds of the successor of each asset holds of every asset, whatever its index. -/
theorem forall_mem_of_scales_eq {P : Asset → Prop} (hscales : after.scales = p.scales)
    (h : ∀ (k : Nat) (asset : Asset), p.assets[k]? = some asset →
      ∃ asset', after.assets[k]? = some asset' ∧ P asset') : ∀ asset ∈ after.assets, P asset := by
  intro asset hmem
  obtain ⟨k, hk⟩ := List.mem_iff_getElem?.1 hmem
  exact forall_of_scales_eq hscales h k asset hk

/-- A pool is live if the successor of each asset has a positive balance. -/
theorem isLive_of_forall (hscales : after.scales = p.scales)
    (h : ∀ (k : Nat) (asset : Asset), p.assets[k]? = some asset →
      ∃ asset', after.assets[k]? = some asset' ∧ 0 < asset'.scaledBalance) : after.IsLive :=
  forall_mem_of_scales_eq hscales h

/-- A pool is drained if the successor of each asset has no balance. -/
theorem isDrained_of_forall (hscales : after.scales = p.scales)
    (h : ∀ (k : Nat) (asset : Asset), p.assets[k]? = some asset →
      ∃ asset', after.assets[k]? = some asset' ∧ asset'.scaledBalance = 0) : after.IsDrained :=
  forall_mem_of_scales_eq hscales h

/-- An asset of a live pool has a positive balance. -/
theorem IsLive.pos (hlive : p.IsLive) {k : Nat} {asset : Asset}
    (hasset : p.assets[k]? = some asset) : 0 < asset.scaledBalance :=
  hlive asset (List.mem_of_getElem? hasset)

end Pool

end StablePool
