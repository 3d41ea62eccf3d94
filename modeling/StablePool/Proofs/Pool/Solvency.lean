import StablePool.Proofs.Pool.Frame

/-!
# Solvency over whole histories

Of each asset a pool holds its own balance and what it owes the administrator. A command that
succeeds moves amounts between the caller, the balance and the administrator's share. Only an
exchange rounds on the way, and never in favour of the caller: it can lose units of the two assets
exchanged, but creates none. Summed over a history, a pool never pays out or owes more of an asset
than it started with and was paid.

That a pool holds what its tokens stand for is not stated here.
-/

namespace StablePool

/-- What a pool has of an asset, for itself and for the administrator. -/
def Asset.held (asset : Asset) : Nat := asset.balance.val + asset.adminBalance.val

/-- How a successful command settles asset `k`: nothing of it is created, and nothing is lost
unless it is one of the two assets of an exchange. -/
structure Command.Settles (c : Command) (reply : Reply) (k : Nat) (before after : Asset) :
    Prop where
  held_add_le : after.held + c.paidOut k reply ≤ before.held + c.paidIn k reply
  held_add_eq : c.exchangedIn k reply = 0 → c.exchangedOut k reply = 0 →
    after.held + c.paidOut k reply = before.held + c.paidIn k reply

/-- An exact settlement is one of either kind. -/
theorem Command.Settles.of_eq {c : Command} {reply : Reply} {k : Nat} {before after : Asset}
    (h : after.held + c.paidOut k reply = before.held + c.paidIn k reply) :
    c.Settles reply k before after :=
  ⟨Nat.le_of_eq h, fun _ _ => h⟩

namespace Pool

/-- An exchange settles every asset, whether or not a minimum was set. -/
theorem settles_of_swapAtLeast {p after : Pool} {i j : Nat} {dx minimum out : Amount}
    (h : (p.swapAtLeast i j dx minimum).result = .ok (out, after)) {k : Nat} {asset : Asset}
    (hasset : p.assets[k]? = some asset) :
    ∃ asset', after.assets[k]? = some asset' ∧
      (Command.swapAtLeast i j dx minimum).Settles (.amount out) k asset asset' := by
  obtain ⟨balance, hafter, hle, heq⟩ := getElem?_of_swapAtLeast_eq_ok h hasset
  refine ⟨_, hafter, ⟨?_, ?_⟩⟩
  · simp only [Asset.held, Command.paidOut, Command.paidIn]
    omega
  · intro hin hout
    have hi : i ≠ k := by
      intro hik
      simp [Command.exchangedIn, hik] at hin
    have hj : j ≠ k := by
      intro hjk
      simp [Command.exchangedOut, hjk] at hout
    simp [Asset.held, Command.paidOut, Command.paidIn, hi, hj, heq hi hj]

/-- A deposit settles every asset exactly, whether or not a minimum was set. -/
theorem settles_of_depositAtLeast {p after : Pool} {amounts : List Amount} {minimum mint : Amount}
    (h : (p.depositAtLeast amounts minimum).result = .ok (mint, after)) {k : Nat} {asset : Asset}
    (hasset : p.assets[k]? = some asset) :
    ∃ asset', after.assets[k]? = some asset' ∧
      (Command.depositAtLeast amounts minimum).Settles (.amount mint) k asset asset' := by
  obtain ⟨paid, balance, adminBalance, adminFee, hpaid, hafter, hbalance, hadmin⟩ :=
    getElem?_of_depositAtLeast_eq_ok h hasset
  refine ⟨_, hafter, .of_eq ?_⟩
  simp only [Asset.held, Command.paidOut, Command.paidIn, amountAt_of_getElem? hpaid]
  omega

/-- A command that succeeds settles every asset. -/
theorem settles_of_perform {p after : Pool} {c : Command} {reply : Reply}
    (h : (p.perform c).result = .ok (reply, after)) {k : Nat} {asset : Asset}
    (hasset : p.assets[k]? = some asset) :
    ∃ asset', after.assets[k]? = some asset' ∧ c.Settles reply k asset asset' := by
  cases c with
  | swap i j dx =>
    obtain ⟨out, hout, rfl⟩ := exists_of_map_reply_eq_ok h
    obtain ⟨asset', hafter, hle, heq⟩ := settles_of_swapAtLeast hout hasset
    exact ⟨asset', hafter, hle, heq⟩
  | swapAtLeast i j dx minimum =>
    obtain ⟨out, hout, rfl⟩ := exists_of_map_reply_eq_ok h
    exact settles_of_swapAtLeast hout hasset
  | deposit amounts =>
    obtain ⟨mint, hmint, rfl⟩ := exists_of_map_reply_eq_ok h
    obtain ⟨asset', hafter, hle, heq⟩ := settles_of_depositAtLeast hmint hasset
    exact ⟨asset', hafter, hle, heq⟩
  | depositAtLeast amounts minimum =>
    obtain ⟨mint, hmint, rfl⟩ := exists_of_map_reply_eq_ok h
    exact settles_of_depositAtLeast hmint hasset
  | withdraw amount =>
    obtain ⟨shares, hshares, rfl⟩ := exists_of_map_reply_eq_ok h
    obtain ⟨share, balance, hshare, -, hafter, hbalance⟩ := getElem?_of_withdraw_eq_ok hshares hasset
    refine ⟨_, hafter, .of_eq ?_⟩
    simp only [Asset.held, Command.paidOut, Command.paidIn, amountAt_of_getElem? hshare]
    omega
  | withdrawAmounts amounts =>
    obtain ⟨burn, hburn, rfl⟩ := exists_of_map_reply_eq_ok h
    obtain ⟨taken, balance, adminBalance, adminFee, htaken, hafter, hbalance, hadmin⟩ :=
      getElem?_of_withdrawAmounts_eq_ok hburn hasset
    refine ⟨_, hafter, .of_eq ?_⟩
    simp only [Asset.held, Command.paidOut, Command.paidIn, amountAt_of_getElem? htaken]
    omega
  | withdrawAsset tokenAmount i minimum =>
    obtain ⟨out, hout, rfl⟩ := exists_of_map_reply_eq_ok h
    obtain ⟨balance, adminBalance, adminFee, hafter, hbalance, hadmin⟩ :=
      getElem?_of_withdrawAsset_eq_ok hout hasset
    refine ⟨_, hafter, .of_eq ?_⟩
    simp only [Asset.held, Command.paidOut, Command.paidIn]
    omega

/-- Serving any request keeps the account of every asset: refused commands and queries move
nothing. -/
theorem held_add_counted {p : Pool} (request : Request) {k : Nat} {asset : Asset}
    (hasset : p.assets[k]? = some asset) :
    ∃ asset', (p.respond request).2.assets[k]? = some asset' ∧
      asset'.held + counted (Command.paidOut k) request (p.respond request).1.result ≤
        asset.held + counted (Command.paidIn k) request (p.respond request).1.result ∧
      (counted (Command.exchangedIn k) request (p.respond request).1.result = 0 →
        counted (Command.exchangedOut k) request (p.respond request).1.result = 0 →
        asset'.held + counted (Command.paidOut k) request (p.respond request).1.result =
          asset.held + counted (Command.paidIn k) request (p.respond request).1.result) := by
  cases request with
  | query q => exact ⟨asset, hasset, Nat.le_refl _, fun _ _ => rfl⟩
  | command c =>
    cases hresult : (p.perform c).result with
    | error cause =>
      rw [respond_command_of_error hresult]
      exact ⟨asset, hasset, Nat.le_refl _, fun _ _ => rfl⟩
    | ok yielded =>
      rw [respond_command_of_ok hresult]
      obtain ⟨asset', hafter, hsettles⟩ := settles_of_perform hresult hasset
      exact ⟨asset', hafter, hsettles.held_add_le, hsettles.held_add_eq⟩

/-- Over a history the account of every asset is kept: what the pool holds and has paid out does not
exceed what it held and was paid, and equals it if the asset was never exchanged. -/
theorem held_add_tally (p : Pool) (requests : List Request) {k : Nat} {asset : Asset}
    (hasset : p.assets[k]? = some asset) :
    ∃ asset', (p.after requests).assets[k]? = some asset' ∧
      asset'.held + p.tally (Command.paidOut k) requests ≤
        asset.held + p.tally (Command.paidIn k) requests ∧
      (p.tally (Command.exchangedIn k) requests = 0 →
        p.tally (Command.exchangedOut k) requests = 0 →
        asset'.held + p.tally (Command.paidOut k) requests =
          asset.held + p.tally (Command.paidIn k) requests) := by
  induction requests generalizing p asset with
  | nil => exact ⟨asset, hasset, Nat.le_refl _, fun _ _ => rfl⟩
  | cons request rest ih =>
    obtain ⟨middle, hmiddle, hle, heq⟩ := held_add_counted request hasset
    obtain ⟨last, hlast, hrest, hrestEq⟩ := ih (p.respond request).2 hmiddle
    refine ⟨last, hlast, ?_, ?_⟩
    · simp only [tally]
      omega
    · intro hin hout
      simp only [tally] at hin hout ⊢
      have hfirst := heq (by omega) (by omega)
      have hothers := hrestEq (by omega) (by omega)
      omega

/-- A pool starts with nothing owed to the administrator. -/
theorem adminBalance_of_ofConfig {c : Config} {start : Pool} (h : ofConfig c = .ok start) {k : Nat}
    {asset : Asset} (hasset : start.assets[k]? = some asset) : asset.adminBalance = 0 := by
  obtain ⟨hvalid, balances, -, rfl⟩ := ofConfig_eq_ok_iff.1 h
  obtain ⟨balance, scale, -, -, rfl⟩ := List.getElem?_zipWith_eq_some.1 hasset
  rfl

/-- Solvency: of every asset, what a pool holds, owes the administrator and has paid out never
exceeds what it started with and was paid, over any history and with any price scales; and the two
are equal unless the asset was exchanged. -/
theorem solvent_after {c : Config} {start : Pool} (h : ofConfig c = .ok start)
    (requests : List Request) {k : Nat} (hk : k < start.assetCount) :
    amountAt (start.after requests).balances k + amountAt (start.after requests).adminBalances k +
        start.tally (Command.paidOut k) requests ≤
      amountAt start.balances k + start.tally (Command.paidIn k) requests ∧
    (start.tally (Command.exchangedIn k) requests = 0 →
      start.tally (Command.exchangedOut k) requests = 0 →
      amountAt (start.after requests).balances k + amountAt (start.after requests).adminBalances k +
          start.tally (Command.paidOut k) requests =
        amountAt start.balances k + start.tally (Command.paidIn k) requests) := by
  have hasset : start.assets[k]? = some start.assets[k] := List.getElem?_eq_getElem hk
  have hadmin := adminBalance_of_ofConfig h hasset
  obtain ⟨asset', hafter, hle, heq⟩ := held_add_tally start requests hasset
  have hstart : amountAt start.balances k = (start.assets[k]).held := by
    rw [amountAt_of_getElem? (getElem?_balances hasset), Asset.held, hadmin]
    rfl
  have hlast : amountAt (start.after requests).balances k +
      amountAt (start.after requests).adminBalances k = asset'.held := by
    rw [amountAt_of_getElem? (getElem?_balances hafter),
      amountAt_of_getElem? (getElem?_adminBalances hafter), Asset.held]
  rw [hstart, hlast]
  exact ⟨hle, heq⟩

/-- A history of a pool of three assets, the second with an odd price scale: an exchange of the
first two, a refused one, a deposit and two withdrawals. Some of the second asset is lost, none of
the third, which is never exchanged. -/
theorem solvent_after_mixed_history :
    let odd : PriceScale := ⟨.lit 1000000000000000000007, by decide⟩
    let c : Config := {
      assetCount := .lit 3
      amplification := ⟨.lit 2000, by decide⟩
      fee := ⟨.lit 4⟩
      adminFee := ⟨.lit 5000⟩
      initial := .explicit [.lit 1511922780182839, .lit 1932395124083, .lit 1724082092237124]
      priceScales := [.one, odd, .one]
      tokenSupply := .lit 4000000000000000
      maxIterations := Config.defaultMaxIterations }
    let start : Pool := {
      terms := {
        amplification := c.amplification
        fee := c.fee
        adminFee := c.adminFee
        maxIterations := Curve.defaultBound
        fee_isValid := by decide
        adminFee_isValid := by decide }
      assets := [⟨.lit 1511922780182839, 0, .one⟩, ⟨.lit 1932395124083, 0, odd⟩,
        ⟨.lit 1724082092237124, 0, .one⟩]
      tokenSupply := c.tokenSupply }
    let requests : List Request := [
      .command (.swap 0 1 (.lit 1000000000000)),
      .command (.swap 1 1 1),
      .command (.deposit [.lit 1000000000000, 0, .lit 500000000000]),
      .command (.withdrawAsset (.lit 10000000000000) 2 0),
      .command (.withdraw (.lit 1000000000000))]
    ofConfig c = .ok start ∧ 1 < start.assetCount ∧ 2 < start.assetCount ∧
      amountAt (start.after requests).balances 1 +
          amountAt (start.after requests).adminBalances 1 +
          start.tally (Command.paidOut 1) requests ≤
        amountAt start.balances 1 + start.tally (Command.paidIn 1) requests ∧
      amountAt (start.after requests).balances 2 +
          amountAt (start.after requests).adminBalances 2 +
          start.tally (Command.paidOut 2) requests =
        amountAt start.balances 2 + start.tally (Command.paidIn 2) requests := by
  intro odd c start requests
  have hstart : ofConfig c = .ok start := rfl
  have hsecond : 1 < start.assetCount := by decide
  have hthird : 2 < start.assetCount := by decide
  have hin : start.tally (Command.exchangedIn 2) requests = 0 := by decide +kernel
  have hout : start.tally (Command.exchangedOut 2) requests = 0 := by decide +kernel
  exact ⟨hstart, hsecond, hthird, (solvent_after hstart requests hsecond).1,
    (solvent_after hstart requests hthird).2 hin hout⟩

end Pool

end StablePool
