import StablePool.Proofs.Pool.Commitment
import StablePool.Proofs.Pool.Frame
import StablePool.Proofs.Pool.IndexChecks

/-!
# The books of a pool over whole histories

A history keeps the terms of the configuration, the number of the assets and their price scales. It
changes the number of tokens by what its commands report as minted and burned, and only ever adds to
what is owed to the administrator. What is refused and what is merely asked changes nothing.

What the balances do over a history is the subject of solvency.
-/

namespace StablePool

/-- A pool with the assets and on the terms of a configuration, all of which are sound. -/
structure Pool.IsPoolOf (c : Config) (p : Pool) : Prop where
  two_le_assetCount : 2 ≤ c.assetCount.val
  length_balances : p.balances.length = c.assetCount.val
  length_adminBalances : p.adminBalances.length = c.assetCount.val
  length_scales : p.scales.length = c.assetCount.val
  amplification_eq : p.terms.amplification = c.amplification
  fee_eq : p.terms.fee = c.fee
  adminFee_eq : p.terms.adminFee = c.adminFee
  scales_eq : p.scales = c.priceScales
  maxIterations_eq : p.terms.maxIterations = c.maxIterations.val
  factor_pos : ∀ scale ∈ p.scales, 0 < scale.factor.val
  fee_le : p.terms.fee.numerator.val ≤ 10000
  adminFee_le : p.terms.adminFee.numerator.val ≤ 10000

/-- How a command that succeeds changes the books: the terms and the price scales stay, tokens are
minted and burned as reported, and the administrator loses nothing. -/
structure Command.Books (c : Command) (reply : Reply) (p after : Pool) : Prop where
  terms_eq : after.terms = p.terms
  scales_eq : after.scales = p.scales
  tokenSupply_add : after.tokenSupply.val + c.burned reply = p.tokenSupply.val + c.minted reply
  adminBalance_le : ∀ k, amountAt p.adminBalances k ≤ amountAt after.adminBalances k

namespace Pool

section

variable {p after : Pool}

/-- Nobody is owed less if no asset has a smaller share of the administrator than before. -/
theorem amountAt_adminBalances_le_of_forall
    (h : ∀ (k : Nat) (asset : Asset), p.assets[k]? = some asset →
      ∃ asset', after.assets[k]? = some asset' ∧
        asset.adminBalance.val ≤ asset'.adminBalance.val) (k : Nat) :
    amountAt p.adminBalances k ≤ amountAt after.adminBalances k := by
  cases hasset : p.assets[k]? with
  | none =>
    have hk : p.adminBalances.length ≤ k := by
      rw [length_adminBalances]
      exact List.getElem?_eq_none_iff.1 hasset
    rw [amountAt_of_length_le hk]
    exact Nat.zero_le _
  | some asset =>
    obtain ⟨asset', hafter, hle⟩ := h k asset hasset
    rwa [amountAt_of_getElem? (getElem?_adminBalances hasset),
      amountAt_of_getElem? (getElem?_adminBalances hafter)]

/-- An exchange that succeeds changes nothing but the balances of its two assets. -/
theorem exchangesOnly_of_swapAtLeast {i j : Nat} {dx minimum out : Amount}
    (h : (p.swapAtLeast i j dx minimum).result = .ok (out, after)) : p.ExchangesOnly i j after := by
  obtain ⟨q, -, -, -, rfl⟩ := swapAtLeast_eq_ok h
  exact exchangesOnly_setBalance p i j q.balanceIn q.balanceOut

/-- An exchange keeps the books as they were. -/
theorem books_of_swapAtLeast {i j : Nat} {dx minimum out : Amount}
    (h : (p.swapAtLeast i j dx minimum).result = .ok (out, after)) :
    (Command.swapAtLeast i j dx minimum).Books (.amount out) p after := by
  have honly := exchangesOnly_of_swapAtLeast h
  refine ⟨honly.terms_eq, honly.scales_eq, ?_, fun k => ?_⟩
  · rw [honly.tokenSupply_eq]
    rfl
  · exact Nat.le_of_eq (by rw [honly.adminBalances_eq])

/-- A deposit books what it mints. -/
theorem books_of_depositAtLeast {amounts : List Amount} {minimum mint : Amount}
    (h : (p.depositAtLeast amounts minimum).result = .ok (mint, after)) :
    (Command.depositAtLeast amounts minimum).Books (.amount mint) p after := by
  have hscales := scales_of_depositAtLeast h
  have hadmin := amountAt_adminBalances_le_of_forall fun k asset hasset => by
    obtain ⟨_, _, _, _, -, hafter, -, hadmin⟩ := getElem?_of_depositAtLeast_eq_ok h hasset
    exact ⟨_, hafter, Nat.le.intro hadmin.symm⟩
  obtain ⟨q, tokenSupply, assets, -, rfl, -, -, hsupply, -, rfl⟩ := depositAtLeast_eq_ok h
  exact ⟨rfl, hscales, hsupply, hadmin⟩

/-- A proportional withdrawal books what it burns. -/
theorem books_of_withdraw {amount : Amount} {shares : List Amount}
    (h : (p.withdraw amount).result = .ok (shares, after)) :
    (Command.withdraw amount).Books (.amounts shares) p after := by
  have hscales := scales_of_withdraw h
  have hadmin := amountAt_adminBalances_le_of_forall fun k asset hasset => by
    obtain ⟨_, _, -, -, hafter, -⟩ := getElem?_of_withdraw_eq_ok h hasset
    exact ⟨_, hafter, Nat.le_refl _⟩
  obtain ⟨tokenSupply, assets, -, hsupply, -, -, rfl⟩ := withdraw_eq_ok h
  exact ⟨rfl, hscales, hsupply, hadmin⟩

/-- A withdrawal of chosen amounts books what it burns. -/
theorem books_of_withdrawAmounts {amounts : List Amount} {burn : Amount}
    (h : (p.withdrawAmounts amounts).result = .ok (burn, after)) :
    (Command.withdrawAmounts amounts).Books (.amount burn) p after := by
  have hscales := scales_of_withdrawAmounts h
  have hadmin := amountAt_adminBalances_le_of_forall fun k asset hasset => by
    obtain ⟨_, _, _, _, -, hafter, -, hadmin⟩ := getElem?_of_withdrawAmounts_eq_ok h hasset
    exact ⟨_, hafter, Nat.le.intro hadmin.symm⟩
  obtain ⟨q, tokenSupply, assets, -, rfl, hsupply, -, rfl⟩ := withdrawAmounts_eq_ok h
  exact ⟨rfl, hscales, hsupply, hadmin⟩

/-- A withdrawal of one asset books what it burns. -/
theorem books_of_withdrawAsset {tokenAmount minimum out : Amount} {i : Nat}
    (h : (p.withdrawAsset tokenAmount i minimum).result = .ok (out, after)) :
    (Command.withdrawAsset tokenAmount i minimum).Books (.amount out) p after := by
  have hscales := scales_of_withdrawAsset h
  have hadmin := amountAt_adminBalances_le_of_forall fun k asset hasset => by
    obtain ⟨_, _, _, hafter, -, hadmin⟩ := getElem?_of_withdrawAsset_eq_ok h hasset
    exact ⟨_, hafter, Nat.le.intro hadmin.symm⟩
  obtain ⟨_, _, _, _, tokenSupply, _, -, -, -, -, -, -, hsupply, -, rfl⟩ := withdrawAsset_eq_ok h
  exact ⟨rfl, hscales, hsupply, hadmin⟩

/-- Every command that succeeds is booked. -/
theorem books_of_perform {c : Command} {reply : Reply}
    (h : (p.perform c).result = .ok (reply, after)) : c.Books reply p after := by
  cases c with
  | swap i j dx =>
    obtain ⟨out, hout, rfl⟩ := exists_of_map_reply_eq_ok h
    have hbooks := books_of_swapAtLeast hout
    exact ⟨hbooks.terms_eq, hbooks.scales_eq, hbooks.tokenSupply_add, hbooks.adminBalance_le⟩
  | swapAtLeast i j dx minimum =>
    obtain ⟨out, hout, rfl⟩ := exists_of_map_reply_eq_ok h
    exact books_of_swapAtLeast hout
  | deposit amounts =>
    obtain ⟨mint, hmint, rfl⟩ := exists_of_map_reply_eq_ok h
    have hbooks := books_of_depositAtLeast hmint
    exact ⟨hbooks.terms_eq, hbooks.scales_eq, hbooks.tokenSupply_add, hbooks.adminBalance_le⟩
  | depositAtLeast amounts minimum =>
    obtain ⟨mint, hmint, rfl⟩ := exists_of_map_reply_eq_ok h
    exact books_of_depositAtLeast hmint
  | withdraw amount =>
    obtain ⟨shares, hshares, rfl⟩ := exists_of_map_reply_eq_ok h
    exact books_of_withdraw hshares
  | withdrawAmounts amounts =>
    obtain ⟨burn, hburn, rfl⟩ := exists_of_map_reply_eq_ok h
    exact books_of_withdrawAmounts hburn
  | withdrawAsset tokenAmount i minimum =>
    obtain ⟨out, hout, rfl⟩ := exists_of_map_reply_eq_ok h
    exact books_of_withdrawAsset hout

end

/-- What serving one request does to the books, whether it is a query, a command that succeeds or one
that is refused. -/
theorem books_of_respond (p : Pool) (request : Request) :
    (p.respond request).2.terms = p.terms ∧
      (p.respond request).2.tokenSupply.val +
          counted Command.burned request (p.respond request).1.result =
        p.tokenSupply.val + counted Command.minted request (p.respond request).1.result ∧
      ∀ k, amountAt p.adminBalances k ≤ amountAt (p.respond request).2.adminBalances k := by
  cases request with
  | query q => exact ⟨rfl, rfl, fun _ => Nat.le_refl _⟩
  | command c =>
    cases hresult : (p.perform c).result with
    | error cause =>
      rw [respond_command_of_error hresult]
      exact ⟨rfl, rfl, fun _ => Nat.le_refl _⟩
    | ok yielded =>
      rw [respond_command_of_ok hresult]
      have hbooks := books_of_perform hresult
      exact ⟨hbooks.terms_eq, hbooks.tokenSupply_add, hbooks.adminBalance_le⟩

/-- A history leaves the terms as they were. -/
theorem terms_after (p : Pool) (requests : List Request) : (p.after requests).terms = p.terms := by
  induction requests generalizing p with
  | nil => rfl
  | cons request rest ih =>
    exact (ih (p.respond request).2).trans (p.books_of_respond request).1

/-- Over a history the number of tokens changes by what was minted and burned. -/
theorem tokenSupply_after (p : Pool) (requests : List Request) :
    (p.after requests).tokenSupply.val + p.tally Command.burned requests =
      p.tokenSupply.val + p.tally Command.minted requests := by
  induction requests generalizing p with
  | nil => rfl
  | cons request rest ih =>
    have hfirst := (p.books_of_respond request).2.1
    have hrest := ih (p.respond request).2
    change ((p.respond request).2.after rest).tokenSupply.val + _ = _
    simp only [tally]
    omega

/-- Over a history the administrator is never owed less. -/
theorem adminBalances_le_after (p : Pool) (requests : List Request) (k : Nat) :
    amountAt p.adminBalances k ≤ amountAt (p.after requests).adminBalances k := by
  induction requests generalizing p with
  | nil => exact Nat.le_refl _
  | cons request rest ih =>
    exact Nat.le_trans ((p.books_of_respond request).2.2 k) (ih (p.respond request).2)

/-- Whatever is asked of the pool of a configuration, it stays one of that configuration. -/
theorem isPoolOf_after {c : Config} {start : Pool} (h : ofConfig c = .ok start)
    (requests : List Request) : (start.after requests).IsPoolOf c := by
  obtain ⟨hvalid, hamplification, hfee, hadminFee, hmaxIterations, hscales, -⟩ := ofConfig_eq_ok h
  have hterms := start.terms_after requests
  have hscales := (start.scales_after requests).trans hscales
  have hcount : (start.after requests).assetCount = c.assetCount.val := by
    rw [← length_scales, hscales, hvalid.length_priceScales]
  exact {
    two_le_assetCount := hvalid.two_le_assetCount
    length_balances := (length_balances _).trans hcount
    length_adminBalances := (length_adminBalances _).trans hcount
    length_scales := (length_scales _).trans hcount
    amplification_eq := hterms ▸ hamplification
    fee_eq := hterms ▸ hfee
    adminFee_eq := hterms ▸ hadminFee
    scales_eq := hscales
    maxIterations_eq := hterms ▸ hmaxIterations
    factor_pos := fun scale _ => scale.factor_pos
    fee_le := (start.after requests).terms.fee_isValid
    adminFee_le := (start.after requests).terms.adminFee_isValid }

/-- The books over a history from any configuration: the pool keeps the shape and the terms of the
configuration, accounts for every token, and never takes back what it owes the administrator; an
exchange touches two balances only, a query or a refusal nothing at all; and where an index passed its
check, every look-up behind it finds an entry, as every trade fee is a part of what it is charged on. -/
theorem books_after {c : Config} {start : Pool} (h : ofConfig c = .ok start)
    (requests : List Request) :
    (start.after requests).IsPoolOf c ∧
      (start.after requests).tokenSupply.val + start.tally Command.burned requests =
        c.tokenSupply.val + start.tally Command.minted requests ∧
      (∀ further k, amountAt (start.after requests).adminBalances k ≤
        amountAt (start.after (requests ++ further)).adminBalances k) ∧
      (∀ i j dx minimum out after,
        ((start.after requests).swap i j dx).result = .ok (out, after) ∨
          ((start.after requests).swapAtLeast i j dx minimum).result = .ok (out, after) →
        (start.after requests).ExchangesOnly i j after) ∧
      (∀ q, ((start.after requests).respond (.query q)).2 = start.after requests) ∧
      (∀ request cause, ((start.after requests).respond request).1.result = .error cause →
        ((start.after requests).respond request).2 = start.after requests) ∧
      (∀ request index count,
        ((start.after requests).respond request).1.result = .error (.invalidAsset index count) →
        count = c.assetCount.val ∧ c.assetCount.val ≤ index) ∧
      ∀ gross, ∃ fee, (start.after requests).terms.fee.apply gross = .ok fee ∧ fee ≤ gross := by
  have hpool := isPoolOf_after h requests
  obtain ⟨-, -, -, -, -, -, htokens⟩ := ofConfig_eq_ok h
  refine ⟨hpool, ?_, fun further k => ?_, fun i j dx minimum out after hswap => ?_, fun _ => rfl,
    fun _ _ hrefused => respond_of_error hrefused, fun request index count hrefused => ?_,
    (start.after requests).terms.fee_isValid.exists_apply_eq_ok⟩
  · rw [← htokens]
    exact start.tokenSupply_after requests
  · have happend : start.after (requests ++ further) = (start.after requests).after further :=
      List.foldl_append
    rw [happend]
    exact adminBalances_le_after _ further k
  · exact hswap.elim exchangesOnly_of_swapAtLeast exchangesOnly_of_swapAtLeast
  · have hcount : (start.after requests).assetCount = c.assetCount.val := by
      rw [← length_balances, hpool.length_balances]
    exact hcount ▸ refusesOnly_respond _ request _ hrefused

/-- A history of a pool of two assets with 18 and 6 decimals: an exchange, a refused one, a deposit, a
query and two withdrawals, followed by an exchange and by a solve for an asset that there is not. -/
theorem books_after_mixed_history :
    let six : PriceScale := ⟨.lit (10 ^ 30), by decide⟩
    let c : Config := {
      assetCount := .lit 2
      amplification := ⟨.lit 200, by decide⟩
      fee := ⟨.lit 4⟩
      adminFee := ⟨.lit 5000⟩
      initial := .explicit [.lit (10 ^ 18), .lit 3000000]
      priceScales := [.one, six]
      tokenSupply := .lit (4 * 10 ^ 18)
      maxIterations := Config.defaultMaxIterations }
    let start : Pool := {
      terms := {
        amplification := c.amplification
        fee := c.fee
        adminFee := c.adminFee
        maxIterations := Curve.defaultBound
        fee_isValid := by decide
        adminFee_isValid := by decide }
      assets := [⟨.lit (10 ^ 18), 0, .one⟩, ⟨.lit 3000000, 0, six⟩]
      tokenSupply := c.tokenSupply }
    let requests : List Request := [
      .command (.swap 0 1 (.lit (10 ^ 17))),
      .command (.swap 1 1 (.lit 5)),
      .command (.deposit [.lit (5 * 10 ^ 17), .lit 100000]),
      .query .virtualPrice,
      .command (.withdrawAsset (.lit (10 ^ 18)) 1 0),
      .command (.withdraw (.lit (10 ^ 18)))]
    let p := start.after requests
    let dx : Amount := .lit 250000
    let out : Amount := .lit 249327686106222072
    ofConfig c = .ok start ∧ p.IsPoolOf c ∧ 0 < start.tally Command.minted requests ∧
      0 < start.tally Command.burned requests ∧
      p.tokenSupply.val + start.tally Command.burned requests =
        c.tokenSupply.val + start.tally Command.minted requests ∧
      amountAt p.adminBalances 0 ≤
        amountAt (start.after (requests ++ [.command (.deposit [1, 0])])).adminBalances 0 ∧
      (p.swap 1 0 dx).result = .ok (out, (p.respond (.command (.swap 1 0 dx))).2) ∧
      p.ExchangesOnly 1 0 (p.respond (.command (.swap 1 0 dx))).2 ∧
      (p.respond (.query (.balanceAt 2 1))).1.result = .error (.invalidAsset 2 2) ∧
      c.assetCount.val ≤ 2 := by
  intro six c start requests p dx out
  have hstart : ofConfig c = .ok start := rfl
  have hminted : 0 < start.tally Command.minted requests := by decide +kernel
  have hburned : 0 < start.tally Command.burned requests := by decide +kernel
  have hswap : (p.swap 1 0 dx).result = .ok (out, (p.respond (.command (.swap 1 0 dx))).2) := by
    decide +kernel
  have houtside : (p.respond (.query (.balanceAt 2 1))).1.result = .error (.invalidAsset 2 2) := by
    decide +kernel
  obtain ⟨hpool, htokens, hadmin, hexchange, -, -, hindex, -⟩ := books_after hstart requests
  -- The pool is folded up, so that no one evaluates the history to compare the two sums.
  rw [show start.after requests = p from rfl] at htokens
  exact ⟨hstart, hpool, hminted, hburned, htokens, hadmin _ 0, hswap,
    hexchange 1 0 dx 0 out _ (.inl hswap), houtside, (hindex _ 2 2 houtside).2⟩

end Pool

end StablePool
