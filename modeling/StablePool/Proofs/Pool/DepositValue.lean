import StablePool.Proofs.Pool.Commitment

/-!
# What a deposit does to the value of a token

A deposit mints tokens for the growth of the invariant once the whole fees are taken off, rounded down,
so that the invariant grows by no smaller a factor than the tokens. The balances that the pool goes on
with keep more than that, namely what the administrator does not take of the fees. If the rate of these
fees rounds down to nothing the two are the same, and the price of a token does not fall. After a first
deposit there are as many tokens as units of the invariant.
-/

namespace StablePool.Pool

variable {p after : Pool}

/-- The invariant of a pool that carries out quoted entries is that of the quoted balances. -/
theorem Carries.invariant_eq {entries : List AssetQuote} (h : p.Carries entries after) :
    after.invariant = p.invariantOf (entries.map AssetQuote.balance) := by
  simp only [invariant, invariantOf, scaledOf, curveInvariant, h.balances_eq, h.scales_eq, h.terms_eq]

namespace LiquidityCourse.LeadsTo

variable {s : LiquidityCourse} {entries : List AssetQuote}

/-- There is a balance net of fees for each asset, if there is a tentative one for each. -/
theorem length_net (h : s.LeadsTo p entries) (hlength : s.tentative.length = p.assetCount) :
    s.net.length = p.assetCount := by
  obtain ⟨rate, -, hcharges⟩ := Checked.bind_eq_ok_iff.1 h.charges_eq
  obtain ⟨step, hnet⟩ := h.net_eq
  rw [Checked.length_eq_of_mapM_eq_ok hnet, List.length_zip,
    Checked.length_eq_of_mapM_eq_ok hcharges, List.length_zip, length_balances, hlength,
    Nat.min_self, Nat.min_self]

/-- The balances net of fees and the fees add up to the tentative balances. -/
theorem amountAt_net_add (h : s.LeadsTo p entries) (hlength : s.tentative.length = p.assetCount)
    (k : Nat) : amountAt s.net k + amountAt (entries.map fun e => e.charge.fee) k =
      amountAt s.tentative k := by
  cases hasset : p.assets[k]? with
  | none =>
    have hk : p.assetCount ≤ k := List.getElem?_eq_none_iff.1 hasset
    rw [amountAt_of_length_le (by rwa [h.length_net hlength]), amountAt_of_length_le
      (by rwa [List.length_map, h.length_entries hlength]), amountAt_of_length_le (by rwa [hlength])]
  | some asset =>
    obtain ⟨balance, hbalance⟩ := exists_getElem?_of_length_eq hlength hasset
    obtain ⟨net, e, hnet, he, hsplits⟩ := h.exists_splitsFee hasset hbalance
    have hfee : (entries.map fun e => e.charge.fee)[k]? = some e.charge.fee := by
      rw [List.getElem?_map, he, Option.map_some]
    rw [amountAt_of_getElem? hnet, amountAt_of_getElem? hfee, amountAt_of_getElem? hbalance,
      hsplits.net_add]

/-- Without fees both the balances on which the tokens are counted and those that the pool goes on with
are the tentative ones. -/
theorem uncharged (h : s.LeadsTo p entries) (hlength : s.tentative.length = p.assetCount)
    (hfree : ∀ (k : Nat) (asset : Asset) (balance fee : Amount), p.assets[k]? = some asset →
      s.tentative[k]? = some balance → p.ChargesDeviation s.d0 s.d1 asset.balance balance fee →
      fee = 0) :
    s.net = s.tentative ∧ entries = s.tentative.map fun balance => ⟨balance, ⟨0, 0⟩⟩ := by
  have hentry (k : Nat) : s.net[k]? = s.tentative[k]? ∧
      entries[k]? = s.tentative[k]?.map fun balance => ⟨balance, ⟨0, 0⟩⟩ := by
    cases hasset : p.assets[k]? with
    | none =>
      have hk : p.assetCount ≤ k := List.getElem?_eq_none_iff.1 hasset
      rw [List.getElem?_eq_none (Nat.le_trans (Nat.le_of_eq (h.length_net hlength)) hk),
        List.getElem?_eq_none (Nat.le_trans (Nat.le_of_eq (h.length_entries hlength)) hk),
        List.getElem?_eq_none (Nat.le_trans (Nat.le_of_eq hlength) hk)]
      exact ⟨rfl, rfl⟩
    | some asset =>
      obtain ⟨balance, hbalance⟩ := exists_getElem?_of_length_eq hlength hasset
      obtain ⟨net, ⟨kept, fee, adminFee⟩, hnet, he, hcharges, hadd, hkept, hshare⟩ :=
        h.exists_chargesDeviation hasset hbalance
      obtain rfl : fee = 0 := hfree k asset balance fee hasset hbalance hcharges
      rw [Word.val_zero, Nat.zero_mul, Nat.zero_div] at hshare
      obtain rfl : adminFee = 0 := Word.eq_zero_iff.2 hshare
      obtain rfl : net = balance := Word.ext_iff.2 hadd
      obtain rfl : kept = net := Word.ext_iff.2 hkept
      rw [hnet, he, hbalance]
      exact ⟨rfl, rfl⟩
  refine ⟨List.ext_getElem? fun k => (hentry k).1, List.ext_getElem? fun k => ?_⟩
  rw [(hentry k).2, List.getElem?_map]

/-- At a rate that rounds down to nothing the pool goes on with the balances on which the tokens are
counted. -/
theorem net_eq_balances (h : s.LeadsTo p entries) (hlength : s.tentative.length = p.assetCount)
    (hrate : p.terms.fee.imbalanceRate p.assetCount = .ok .zero) :
    s.net = entries.map AssetQuote.balance := by
  obtain ⟨hnet, hentries⟩ := h.uncharged hlength fun _ _ _ _ _ _ hcharges =>
    hcharges.fee_eq_zero hrate
  rw [hentries, List.map_map, hnet]
  exact (List.map_id s.tentative).symm

end LiquidityCourse.LeadsTo

/-- The tentative balances of a deposit are the balances and what is paid in. -/
theorem amountAt_tentative {amounts tentative : List Amount} (hlength : amounts.length = p.assetCount)
    (h : (p.balances.zip amounts).mapM (fun (held, paid) => held.add paid "deposit balance") =
      .ok tentative) (k : Nat) :
    amountAt tentative k = amountAt p.balances k + amountAt amounts k := by
  cases hasset : p.assets[k]? with
  | none =>
    have hk : p.assetCount ≤ k := List.getElem?_eq_none_iff.1 hasset
    rw [amountAt_of_length_le (by rwa [length_of_mapM_zip_balances hlength h]),
      amountAt_of_length_le (by rwa [length_balances]), amountAt_of_length_le (by rwa [hlength])]
  | some asset =>
    obtain ⟨paid, hpaid⟩ := exists_getElem?_of_length_eq hlength hasset
    have hheld := getElem?_balances hasset
    obtain ⟨sum, hsum, hadd⟩ := Checked.exists_getElem?_of_mapM_zip_eq_ok h hheld hpaid
    rw [amountAt_of_getElem? hsum, amountAt_of_getElem? hheld, amountAt_of_getElem? hpaid]
    exact Word.add_eq_ok_iff.1 hadd

/-- The tokens after minting a growth, rounded down, are to the tokens before it as the grown invariant
to the one before it, less a part of a token. -/
theorem mint_bounds {supply d0 d2 growth mint : Amount} (hgrowth : growth.val + d0.val = d2.val)
    (hmint : Word.mulDiv supply growth d0 "lp mint" = .ok mint) :
    (supply.val + mint.val) * d0.val ≤ supply.val * d2.val ∧
      supply.val * d2.val < (supply.val + mint.val + 1) * d0.val := by
  obtain ⟨hpos, hquotient⟩ := Word.mulDiv_eq_ok_iff.1 hmint
  have hle : mint.val * d0.val ≤ supply.val * growth.val :=
    hquotient ▸ Nat.div_mul_le_self _ _
  have hlt : supply.val * growth.val < (mint.val + 1) * d0.val := by
    rw [hquotient, Nat.mul_comm (_ + 1)]
    exact Nat.lt_mul_div_succ _ hpos
  rw [← hgrowth, Nat.mul_add]
  constructor
  · rw [Nat.add_mul]
    omega
  · rw [Nat.add_assoc, Nat.add_mul]
    omega

/-- A pool with as many tokens as units of its invariant, and some of them, sells a token for a unit. -/
theorem virtualPrice_eq_base (hsome : p.tokenSupply ≠ 0)
    (hd : p.invariant.result = .ok p.tokenSupply) : p.virtualPrice.result = .ok base := by
  have hpos : 0 < p.tokenSupply.val := Nat.pos_of_ne_zero (mt Word.eq_zero_iff.2 hsome)
  rw [virtualPrice, Logged.result_bind_of_ok hd]
  exact Word.mulDiv_eq_ok_iff.2 ⟨hpos, (Nat.mul_div_cancel_left _ hpos).symm⟩

/-- The price of a token does not fall if the invariant grows by no smaller a factor than the tokens. -/
theorem virtualPrice_le {d0 d2 v v' : Amount} (hd0 : p.invariant.result = .ok d0)
    (hd2 : after.invariant.result = .ok d2)
    (hle : d0.val * after.tokenSupply.val ≤ d2.val * p.tokenSupply.val)
    (hv : p.virtualPrice.result = .ok v) (hv' : after.virtualPrice.result = .ok v') : v ≤ v' := by
  rw [virtualPrice, Logged.result_bind_of_ok hd0] at hv
  rw [virtualPrice, Logged.result_bind_of_ok hd2] at hv'
  obtain ⟨hbefore, hprice⟩ := Word.mulDiv_eq_ok_iff.1 hv
  obtain ⟨hafter, hprice'⟩ := Word.mulDiv_eq_ok_iff.1 hv'
  rw [Word.le_iff, hprice, hprice', Nat.le_div_iff_mul_le hafter]
  refine Nat.le_of_mul_le_mul_right ?_ hbefore
  calc d0.val * base.val / p.tokenSupply.val * after.tokenSupply.val * p.tokenSupply.val
      = d0.val * base.val / p.tokenSupply.val * p.tokenSupply.val * after.tokenSupply.val :=
        Nat.mul_right_comm _ _ _
    _ ≤ d0.val * base.val * after.tokenSupply.val :=
        Nat.mul_le_mul_right _ (Nat.div_mul_le_self _ _)
    _ = d0.val * after.tokenSupply.val * base.val := Nat.mul_right_comm _ _ _
    _ ≤ d2.val * p.tokenSupply.val * base.val := Nat.mul_le_mul_right _ hle
    _ = d2.val * base.val * p.tokenSupply.val := Nat.mul_right_comm _ _ _

/-- No deposit dilutes the tokens there are. With `d2` the invariant of the balances and the amounts less
the whole fees, the tokens after the deposit stand to those before it as `d2` to the invariant before it,
rounded down. If the rate of the fees rounds down to nothing, `d2` is the invariant of the pool after the
deposit, and the price of a token does not fall. A first deposit leaves as many tokens as units of the
invariant, and each sells for a unit. -/
theorem deposit_never_dilutes {amounts : List Amount} {minimum mint : Amount}
    (hdeposit : (p.depositAtLeast amounts minimum).result = .ok (mint, after)) :
    (p.tokenSupply ≠ 0 → ∀ d0, p.invariant.result = .ok d0 →
      ∃ (q : LiquidityQuote) (s : LiquidityCourse),
        (p.quoteDeposit amounts).result = .ok q ∧ s.LeadsTo p q.entries ∧
        (∀ k, amountAt s.net k + amountAt (q.entries.map fun e => e.charge.fee) k =
          amountAt p.balances k + amountAt amounts k) ∧
        (p.invariantOf s.net).result = .ok s.d2 ∧
        (p.tokenSupply.val + mint.val) * d0.val ≤ p.tokenSupply.val * s.d2.val ∧
        p.tokenSupply.val * s.d2.val < (p.tokenSupply.val + mint.val + 1) * d0.val ∧
        (p.terms.fee.imbalanceRate p.assetCount = .ok .zero →
          after.invariant.result = .ok s.d2 ∧
          d0.val * after.tokenSupply.val ≤ s.d2.val * p.tokenSupply.val ∧
          ∀ v v', p.virtualPrice.result = .ok v → after.virtualPrice.result = .ok v' → v ≤ v')) ∧
    (p.tokenSupply = 0 →
      after.invariant.result = .ok after.tokenSupply ∧ after.virtualPrice.result = .ok base) := by
  obtain ⟨q, tokenSupply, assets, hq, rfl, hsome, -, hsupply, hassets, rfl⟩ :=
    depositAtLeast_eq_ok hdeposit
  have hcarries := carries_of_settleAssets_eq_ok (length_entries_of_quoteDeposit hq) hassets
    tokenSupply
  obtain ⟨hlength, tentative, htentative, hcourse⟩ := quoteDeposit_eq_ok hq
  have hcount := length_of_mapM_zip_balances hlength htentative
  obtain ⟨hfirst, hd1, hentries⟩ | ⟨hlater, s, rfl, hleads, growth, hgrowth, hmint⟩ := hcourse
  · refine ⟨fun hlater => absurd hfirst hlater, fun _ => ?_⟩
    obtain rfl : tokenSupply = q.tokenAmount := by
      rw [Word.ext_iff, hsupply, hfirst, Word.val_zero, Nat.zero_add]
    have hafter := hcarries.invariant_eq
    rw [hentries, List.map_map, show (AssetQuote.balance ∘ fun balance : Amount =>
      (⟨balance, ⟨0, 0⟩⟩ : AssetQuote)) = id from rfl, List.map_id] at hafter
    have hinvariant := (congrArg Logged.result hafter).trans hd1
    exact ⟨hinvariant, virtualPrice_eq_base hsome hinvariant⟩
  · refine ⟨fun _ d0 hd0 => ?_, fun hfirst => absurd hfirst hlater⟩
    obtain rfl : s.d0 = d0 := Except.ok.inj (hleads.invariant_eq.symm.trans hd0)
    obtain ⟨hle, hlt⟩ := mint_bounds hgrowth hmint
    refine ⟨q, s, hq, hleads, fun k => ?_, hleads.final_eq, hle, hlt, fun hrate => ?_⟩
    · rw [hleads.amountAt_net_add hcount, amountAt_tentative hlength htentative]
    · have hinvariant : ({ p with assets, tokenSupply } : Pool).invariant.result = .ok s.d2 := by
        rw [hcarries.invariant_eq, ← hleads.net_eq_balances hcount hrate]
        exact hleads.final_eq
      have hfactor : s.d0.val * tokenSupply.val ≤ s.d2.val * p.tokenSupply.val := by
        rw [hsupply, Nat.mul_comm s.d0.val, Nat.mul_comm s.d2.val]
        exact hle
      exact ⟨hinvariant, hfactor, fun v v' hv hv' => virtualPrice_le hd0 hinvariant hfactor hv hv'⟩

/-- The same uneven deposit at a trade fee whose rate charges something and at one whose rate rounds down
to nothing, and a first deposit. -/
theorem deposit_never_dilutes_uneven :
    let terms : Terms := {
      amplification := ⟨.lit 200, by decide⟩
      fee := ⟨.lit 4⟩
      adminFee := ⟨.lit 5000⟩
      maxIterations := Curve.defaultBound
      fee_isValid := by decide
      adminFee_isValid := by decide }
    let cheap : Terms := { terms with fee := ⟨.lit 1⟩, fee_isValid := by decide }
    let assets : List Asset := [⟨.lit 1000000, 0, .one⟩, ⟨.lit 3000000, 0, .one⟩]
    let charged : Pool := ⟨terms, assets, .lit 3500000⟩
    let chargedAfter : Pool :=
      ⟨terms, [⟨.lit 1499963, .lit 37, .one⟩, ⟨.lit 2999963, .lit 37, .one⟩], .lit 3939404⟩
    let free : Pool := ⟨cheap, assets, .lit 3500000⟩
    let freeAfter : Pool := ⟨cheap, [⟨.lit 1500000, 0, .one⟩, ⟨.lit 3000000, 0, .one⟩], .lit 3939535⟩
    let empty : Pool := ⟨terms, [⟨0, 0, .one⟩, ⟨0, 0, .one⟩], 0⟩
    let first : Pool := ⟨terms, assets, .lit 3996691⟩
    let d0 : Amount := .lit 3996691
    let d2 : Amount := .lit 4498602
    (charged.depositAtLeast [.lit 500000, 0] 0).result = .ok (.lit 439404, chargedAfter) ∧
      charged.invariant.result = .ok d0 ∧
      (∃ (q : LiquidityQuote) (s : LiquidityCourse), s.LeadsTo charged q.entries ∧
        (3500000 + 439404) * d0.val ≤ 3500000 * s.d2.val ∧
        3500000 * s.d2.val < (3500000 + 439404 + 1) * d0.val) ∧
      (free.depositAtLeast [.lit 500000, 0] 0).result = .ok (.lit 439535, freeAfter) ∧
      free.terms.fee.imbalanceRate 2 = .ok .zero ∧ freeAfter.invariant.result = .ok d2 ∧
      d0.val * freeAfter.tokenSupply.val ≤ d2.val * free.tokenSupply.val ∧
      (empty.depositAtLeast [.lit 1000000, .lit 3000000] 0).result = .ok (d0, first) ∧
      first.invariant.result = .ok d0 ∧ first.virtualPrice.result = .ok base := by
  intro terms cheap assets charged chargedAfter free freeAfter empty first d0 d2
  have hcharged : (charged.depositAtLeast [.lit 500000, 0] 0).result =
      .ok (.lit 439404, chargedAfter) := by decide +kernel
  have hfree : (free.depositAtLeast [.lit 500000, 0] 0).result = .ok (.lit 439535, freeAfter) := by
    decide +kernel
  have hempty : (empty.depositAtLeast [.lit 1000000, .lit 3000000] 0).result = .ok (d0, first) := by
    decide +kernel
  have hd0 : charged.invariant.result = .ok d0 := by decide +kernel
  have hfreed0 : free.invariant.result = .ok d0 := by decide +kernel
  have hd2 : freeAfter.invariant.result = .ok d2 := by decide +kernel
  have hrate : free.terms.fee.imbalanceRate 2 = .ok .zero := by decide
  obtain ⟨q, s, -, hleads, -, -, hle, hlt, -⟩ := (deposit_never_dilutes hcharged).1 (by decide) d0 hd0
  obtain ⟨_, s', -, -, -, -, -, -, hkept⟩ := (deposit_never_dilutes hfree).1 (by decide) d0 hfreed0
  obtain ⟨hafter, hfactor, -⟩ := hkept hrate
  rw [Except.ok.inj (hafter.symm.trans hd2)] at hfactor
  obtain ⟨hfirst, hprice⟩ := (deposit_never_dilutes hempty).2 rfl
  exact ⟨hcharged, hd0, ⟨q, s, hleads, hle, hlt⟩, hfree, hrate, hd2, hfactor, hempty, hfirst, hprice⟩

end StablePool.Pool
