import Mathlib.Algebra.Group.Nat.Defs
import Mathlib.Control.Monad.Basic
import StablePool.Proofs.Pool.Solvency

/-!
# Exact accounts of whole scales

If a native unit of an asset stands for a whole number of price-scaled units, no conversion of it
loses anything on its own. The account of the asset is then exact up to the unit that every exchange
takes from the curve and neither pays out nor keeps: each exchange that pays out the asset loses
exactly one native unit of it, whatever its price scale, and nothing else loses any.

The scales of the other assets do not matter. For a scale that is not whole only the inequality of
solvency is left.
-/

namespace StablePool

/-- How a successful command settles asset `k` to the unit: one unit is lost for each exchange that
pays it out. -/
def Command.SettlesExactly (c : Command) (reply : Reply) (k : Nat) (before after : Asset) : Prop :=
  after.held + c.paidOut k reply + c.exchangedOut k reply = before.held + c.paidIn k reply

/-- An asset that a command does not exchange is settled to the unit. -/
theorem Command.Settles.settlesExactly {c : Command} {reply : Reply} {k : Nat}
    {before after : Asset} (h : c.Settles reply k before after) (hin : c.exchangedIn k reply = 0)
    (hout : c.exchangedOut k reply = 0) : c.SettlesExactly reply k before after := by
  rw [SettlesExactly, hout]
  exact h.held_add_eq hin hout

namespace Pool

/-- What an exchange leaves of an asset with a whole scale: exactly what it had and was paid less what
is paid out of it, and one unit less if it was paid out. -/
theorem getElem?_of_swapAtLeast_of_isWhole {p after : Pool} {i j : Nat} {dx minimum out : Amount}
    (h : (p.swapAtLeast i j dx minimum).result = .ok (out, after)) {k : Nat} {asset : Asset}
    (hasset : p.assets[k]? = some asset) (hwhole : asset.scale.IsWhole) :
    ∃ balance : Amount, after.assets[k]? = some { asset with balance } ∧
      balance.val + (if j = k then out.val + 1 else 0) =
        asset.balance.val + (if i = k then dx.val else 0) := by
  obtain ⟨s, q, -, hs, rfl, hafter⟩ := exists_course_of_swapAtLeast_eq_ok h
  obtain ⟨balance, hk, hleft⟩ := hafter hasset
  have hne := hs.pair_isOf.ne
  refine ⟨balance, hk, ?_⟩
  cases hleft with
  | source => simpa [hne.symm] using hs.balanceIn_eq hwhole
  | target => simpa [hne, ← Nat.add_assoc] using hs.balanceOut_add_succ hwhole
  | other hi hj => simp [hi, hj]

/-- An exchange settles every asset with a whole scale to the unit, whether or not a minimum was
set. -/
theorem settlesExactly_of_swapAtLeast {p after : Pool} {i j : Nat} {dx minimum out : Amount}
    (h : (p.swapAtLeast i j dx minimum).result = .ok (out, after)) {k : Nat} {asset : Asset}
    (hasset : p.assets[k]? = some asset) (hwhole : asset.scale.IsWhole) :
    ∃ asset', after.assets[k]? = some asset' ∧
      (Command.swapAtLeast i j dx minimum).SettlesExactly (.amount out) k asset asset' := by
  obtain ⟨balance, hafter, hbalance⟩ := getElem?_of_swapAtLeast_of_isWhole h hasset hwhole
  refine ⟨_, hafter, ?_⟩
  simp only [Command.SettlesExactly, Asset.held, Command.paidOut, Command.paidIn,
    Command.exchangedOut]
  split at hbalance <;> simp only [*, if_true, if_false] <;> omega

/-- A command that succeeds settles every asset with a whole scale to the unit. -/
theorem settlesExactly_of_perform {p after : Pool} {c : Command} {reply : Reply}
    (h : (p.perform c).result = .ok (reply, after)) {k : Nat} {asset : Asset}
    (hasset : p.assets[k]? = some asset) (hwhole : asset.scale.IsWhole) :
    ∃ asset', after.assets[k]? = some asset' ∧ c.SettlesExactly reply k asset asset' := by
  cases c with
  | swap i j dx =>
    obtain ⟨out, hout, rfl⟩ := exists_of_map_reply_eq_ok h
    exact settlesExactly_of_swapAtLeast hout hasset hwhole
  | swapAtLeast i j dx minimum =>
    obtain ⟨out, hout, rfl⟩ := exists_of_map_reply_eq_ok h
    exact settlesExactly_of_swapAtLeast hout hasset hwhole
  | deposit _ | depositAtLeast _ _ | withdraw _ | withdrawAmounts _ | withdrawAsset _ _ _ =>
    obtain ⟨asset', hafter, hsettles⟩ := settles_of_perform h hasset
    exact ⟨asset', hafter, hsettles.settlesExactly rfl rfl⟩

/-- Serving any request keeps the account of an asset with a whole scale to the unit. -/
theorem held_add_counted_eq {p : Pool} (request : Request) {k : Nat} {asset : Asset}
    (hasset : p.assets[k]? = some asset) (hwhole : asset.scale.IsWhole) :
    ∃ asset', (p.respond request).2.assets[k]? = some asset' ∧
      asset'.held + counted (Command.paidOut k) request (p.respond request).1.result +
          counted (Command.exchangedOut k) request (p.respond request).1.result =
        asset.held + counted (Command.paidIn k) request (p.respond request).1.result := by
  cases request with
  | query q => exact ⟨asset, hasset, rfl⟩
  | command c =>
    cases hresult : (p.perform c).result with
    | error cause =>
      rw [respond_command_of_error hresult]
      exact ⟨asset, hasset, rfl⟩
    | ok yielded =>
      rw [respond_command_of_ok hresult]
      exact settlesExactly_of_perform hresult hasset hwhole

/-- An asset of a pool whose price scales are all whole has a whole one. -/
theorem isWhole_of_getElem? {p : Pool} (hwhole : ∀ scale ∈ p.scales, scale.IsWhole) {k : Nat}
    {asset : Asset} (hasset : p.assets[k]? = some asset) : asset.scale.IsWhole :=
  hwhole _ (List.mem_of_getElem? (getElem?_scales hasset))

/-- Over a history the account of every asset is exact if all scales are whole: what the pool holds
and has paid out, and one unit for each exchange that paid it out, is what it held and was paid. -/
theorem held_add_tally_eq {p : Pool} (hwhole : ∀ scale ∈ p.scales, scale.IsWhole)
    (requests : List Request) {k : Nat} {asset : Asset} (hasset : p.assets[k]? = some asset) :
    ∃ asset', (p.after requests).assets[k]? = some asset' ∧
      asset'.held + p.tally (Command.paidOut k) requests +
          p.tally (Command.exchangedOut k) requests =
        asset.held + p.tally (Command.paidIn k) requests := by
  induction requests generalizing p asset with
  | nil => exact ⟨asset, hasset, rfl⟩
  | cons request rest ih =>
    obtain ⟨middle, hmiddle, hfirst⟩ :=
      held_add_counted_eq request hasset (isWhole_of_getElem? hwhole hasset)
    have hsame : ∀ scale ∈ (p.respond request).2.scales, scale.IsWhole := by
      rw [scales_respond]
      exact hwhole
    obtain ⟨last, hlast, hrest⟩ := ih hsame hmiddle
    refine ⟨last, hlast, ?_⟩
    simp only [tally]
    omega

/-- What an exchange between whole scales leaves in the pool: of the input exactly what was there and
was paid in, of the output exactly one unit less than what was there and is not paid out. -/
theorem amountAt_balances_of_swapAtLeast {p after : Pool} {i j : Nat} {dx minimum out : Amount}
    (hwhole : ∀ scale ∈ p.scales, scale.IsWhole)
    (h : (p.swapAtLeast i j dx minimum).result = .ok (out, after)) :
    amountAt after.balances i = amountAt p.balances i + dx.val ∧
      amountAt after.balances j + out.val + 1 = amountAt p.balances j := by
  obtain ⟨s, q, -, hs, -⟩ := exists_course_of_swapAtLeast_eq_ok h
  have hne := hs.pair_isOf.ne
  have hsource := hs.pair_isOf.source_eq
  have htarget := hs.pair_isOf.target_eq
  obtain ⟨balanceIn, hin, heqIn⟩ :=
    getElem?_of_swapAtLeast_of_isWhole h hsource (isWhole_of_getElem? hwhole hsource)
  obtain ⟨balanceOut, hout, heqOut⟩ :=
    getElem?_of_swapAtLeast_of_isWhole h htarget (isWhole_of_getElem? hwhole htarget)
  rw [amountAt_of_getElem? (getElem?_balances hsource), amountAt_of_getElem? (getElem?_balances hin),
    amountAt_of_getElem? (getElem?_balances htarget),
    amountAt_of_getElem? (getElem?_balances hout)]
  exact ⟨by simpa [hne.symm] using heqIn, by simpa [hne, ← Nat.add_assoc] using heqOut⟩

/-- Exact accounts: if every price scale is whole, then over any history what the pool holds of an
asset, owes the administrator and has paid out, together with one unit for each exchange that paid
the asset out, is exactly what it started with and was paid. The unit is lost in each exchange of
its own: the input ends with what it had and was paid, the output one unit short of what it had and
has not paid out. -/
theorem exact_accounts_after {c : Config} {start : Pool} (h : ofConfig c = .ok start)
    (hwhole : ∀ scale ∈ c.priceScales, scale.IsWhole) (requests : List Request) :
    (∀ k < start.assetCount,
      amountAt (start.after requests).balances k + amountAt (start.after requests).adminBalances k +
          start.tally (Command.paidOut k) requests + start.tally (Command.exchangedOut k) requests =
        amountAt start.balances k + start.tally (Command.paidIn k) requests) ∧
    ∀ (i j : Nat) (dx minimum out : Amount) (last : Pool),
      ((start.after requests).swapAtLeast i j dx minimum).result = .ok (out, last) →
      amountAt last.balances i = amountAt (start.after requests).balances i + dx.val ∧
        amountAt last.balances j + out.val + 1 = amountAt (start.after requests).balances j := by
  have hstart : ∀ scale ∈ start.scales, scale.IsWhole := fun scale hscale =>
    hwhole scale (mem_priceScales_of_ofConfig h hscale)
  constructor
  · intro k hk
    have hasset : start.assets[k]? = some start.assets[k] := List.getElem?_eq_getElem hk
    have hadmin := adminBalance_of_ofConfig h hasset
    obtain ⟨asset', hafter, heq⟩ := held_add_tally_eq hstart requests hasset
    rw [Asset.held, Asset.held, hadmin, Word.val_zero, Nat.add_zero] at heq
    rw [amountAt_of_getElem? (getElem?_balances hasset),
      amountAt_of_getElem? (getElem?_balances hafter),
      amountAt_of_getElem? (getElem?_adminBalances hafter)]
    exact heq
  · intro i j dx minimum out last hswap
    exact amountAt_balances_of_swapAtLeast (by rwa [scales_after]) hswap

/-- A history of a pool with six, eighteen and eight decimals: exchanges, a refused one, a deposit and
every kind of withdrawal. Two of the exchanges pay out the first asset, of which two units are lost.
An exchange at its end loses one unit of the second asset. -/
theorem exact_accounts_after_mixed_decimals :
    let six : PriceScale := ⟨.lit (10 ^ 30), by decide⟩
    let eight : PriceScale := ⟨.lit (10 ^ 28), by decide⟩
    let c : Config := {
      assetCount := .lit 3
      amplification := ⟨.lit 900, by decide⟩
      fee := ⟨.lit 4⟩
      adminFee := ⟨.lit 5000⟩
      initial := .explicit [.lit 5000000000000, .lit 4900000000000000000000000, .lit 510000000000000]
      priceScales := [six, .one, eight]
      tokenSupply := .lit 15000000000000000000000000
      maxIterations := Config.defaultMaxIterations }
    let start : Pool := {
      terms := {
        amplification := c.amplification
        fee := c.fee
        adminFee := c.adminFee
        maxIterations := Curve.defaultBound
        fee_isValid := by decide
        adminFee_isValid := by decide }
      assets := [⟨.lit 5000000000000, 0, six⟩, ⟨.lit 4900000000000000000000000, 0, .one⟩,
        ⟨.lit 510000000000000, 0, eight⟩]
      tokenSupply := c.tokenSupply }
    let requests : List Request := [
      .command (.swap 0 1 (.lit 1234567)),
      .command (.swap 1 0 (.lit 7654321000000000)),
      .command (.swap 2 2 1),
      .command (.deposit [.lit 1000000, 0, .lit 50000000]),
      .command (.withdrawAmounts [.lit 500000, .lit 1000000000000000000, 0]),
      .command (.withdrawAsset (.lit 1000000000000000000) 2 0),
      .command (.swap 2 0 (.lit 300)),
      .command (.withdraw (.lit 1000000000000000000))]
    let dx : Amount := .lit 1000000
    let out : Amount := .lit 999577348843908704
    let last := ((start.after requests).respond (.command (.swapAtLeast 0 1 dx 0))).2
    ofConfig c = .ok start ∧ (∀ scale ∈ c.priceScales, scale.IsWhole) ∧ 0 < start.assetCount ∧
      start.tally (Command.exchangedOut 0) requests = 2 ∧
      (amountAt (start.after requests).balances 0 + amountAt (start.after requests).adminBalances 0 +
          start.tally (Command.paidOut 0) requests + start.tally (Command.exchangedOut 0) requests =
        amountAt start.balances 0 + start.tally (Command.paidIn 0) requests) ∧
      ((start.after requests).swapAtLeast 0 1 dx 0).result = .ok (out, last) ∧
      amountAt last.balances 0 = amountAt (start.after requests).balances 0 + dx.val ∧
      amountAt last.balances 1 + out.val + 1 = amountAt (start.after requests).balances 1 := by
  intro six eight c start requests dx out last
  have hstart : ofConfig c = .ok start := rfl
  have hwhole : ∀ scale ∈ c.priceScales, scale.IsWhole := by decide
  have hfirst : 0 < start.assetCount := by decide
  have hexchanged : start.tally (Command.exchangedOut 0) requests = 2 := by decide +kernel
  have hswap : ((start.after requests).swapAtLeast 0 1 dx 0).result = .ok (out, last) := by
    decide +kernel
  have haccounts := exact_accounts_after hstart hwhole requests
  exact ⟨hstart, hwhole, hfirst, hexchanged, haccounts.1 0 hfirst, hswap,
    haccounts.2 0 1 dx 0 out last hswap⟩

end Pool

end StablePool
