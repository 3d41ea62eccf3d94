import StablePool.Pool.InPlace

/-!
# Deviation fees and deposits

An operation that changes the proportions of a pool is charged, for each asset, on the distance
between the new balance and the ideal one, which is the old balance times the growth of the
invariant. The fee stays in the balance except for the administrator's share, which is set aside.
Tokens are minted or burned for the change of the invariant after all fees are taken off.
-/

namespace StablePool

/-- A deviation fee and the administrator's share of it. -/
structure Charge where
  fee : Amount
  adminFee : Amount
deriving DecidableEq

/-- What an operation does to one asset. -/
structure AssetQuote where
  /-- The balance afterwards, without the administrator's share of the fee. -/
  balance : Amount
  charge : Charge
deriving DecidableEq

/-- What an operation does to the tokens and to every asset. -/
structure LiquidityQuote where
  /-- The tokens minted or burned. -/
  tokenAmount : Amount
  entries : List AssetQuote
deriving DecidableEq

namespace Pool

/-- The deviation fees for a move of the balances to `after`, when the invariant goes from `d0` to
`d1`. -/
def deviationCharges (p : Pool) (d0 d1 : Amount) (after : List Amount) :
    Checked (List Charge) := do
  let rate ← p.terms.fee.imbalanceRate p.assetCount
  (p.balances.zip after).mapM fun (old, new) => do
    let ideal ← Word.mulDiv d1 old d0 "ideal balance"
    let fee ← rate.apply (ideal.distance new)
    let adminFee ← p.terms.adminFee.apply fee
    return { fee, adminFee }

/-- The balances `after` less the whole fees, on which the invariant is taken. -/
def netOfFees (after : List Amount) (charges : List Charge) (step : String) :
    Checked (List Amount) :=
  (after.zip charges).mapM fun (balance, charge) => balance.sub charge.fee step

/-- The balances `after` less the administrator's share, which the pool goes on with. -/
def netOfAdminFees (after : List Amount) (charges : List Charge) (step : String) :
    Checked (List AssetQuote) :=
  (after.zip charges).mapM fun (balance, charge) => do
    let kept ← balance.sub charge.adminFee step
    return { balance := kept, charge }

/-- The assets once a quote is carried out. -/
def settleAssets (p : Pool) (entries : List AssetQuote) : Checked (List Asset) :=
  (p.assets.zip entries).mapM fun (asset, quoted) => do
    let adminBalance ← asset.adminBalance.add quoted.charge.adminFee "admin balance"
    return { asset with balance := quoted.balance, adminBalance }

/-- What a deposit would do. The first deposit mints the whole invariant and is not charged. -/
def quoteDeposit (p : Pool) (amounts : List Amount) : Logged LiquidityQuote := do
  p.expectOneEach amounts
  let d0 ← p.invariant
  let after ← (p.balances.zip amounts).mapM fun (held, paid) => held.add paid "deposit balance"
  let d1 ← p.invariantOf after
  if p.tokenSupply = 0 then
    return ⟨d1, after.map fun balance => ⟨balance, ⟨0, 0⟩⟩⟩
  let charges ← p.deviationCharges d0 d1 after
  let net ← netOfFees after charges "deposit net of fees"
  let entries ← netOfAdminFees after charges "deposit net of admin fees"
  let d2 ← p.invariantOf net
  let growth ← d2.minus d0 (.negativeOutput "deposit shrinks the invariant")
  let mint ← Word.mulDiv p.tokenSupply growth d0 "lp mint"
  return ⟨mint, entries⟩

end Pool

/-- Pay in amounts for at least `minimum` tokens, and never for none. -/
def InPlace.depositAtLeast (amounts : List Amount) (minimum : Amount) : InPlace Amount := do
  let p ← InPlace.current
  let q ← p.quoteDeposit amounts
  let mint := q.tokenAmount
  ensure (mint ≠ 0) (.zeroAmount "lp mint")
  ensure (minimum ≤ mint) (.slippageExceeded minimum.val mint.val)
  let tokenSupply ← p.tokenSupply.add mint "lp supply"
  let assets ← p.settleAssets q.entries
  InPlace.write fun p => { p with assets }
  InPlace.write fun p => { p with tokenSupply }
  Logged.report (.deposited amounts mint tokenSupply)
  return mint

namespace Pool

/-- What a deposit for at least `minimum` tokens comes to. -/
def depositAtLeast (p : Pool) (amounts : List Amount) (minimum : Amount) : Logged (Amount × Pool) :=
  (InPlace.depositAtLeast amounts minimum).outcome p

/-- A deposit comes to its quote, once the tokens are found to be enough and every sum to fit. -/
theorem depositAtLeast_eq (p : Pool) (amounts : List Amount) (minimum : Amount) :
    p.depositAtLeast amounts minimum = do
      let q ← p.quoteDeposit amounts
      let mint := q.tokenAmount
      ensure (mint ≠ 0) (.zeroAmount "lp mint")
      ensure (minimum ≤ mint) (.slippageExceeded minimum.val mint.val)
      let tokenSupply ← p.tokenSupply.add mint "lp supply"
      let assets ← p.settleAssets q.entries
      Logged.report (.deposited amounts mint tokenSupply)
      return (mint, { p with assets, tokenSupply }) := by
  simp [depositAtLeast, InPlace.depositAtLeast]

/-- Pay in amounts for whatever they mint. -/
def deposit (p : Pool) (amounts : List Amount) : Logged (Amount × Pool) :=
  p.depositAtLeast amounts 0

end Pool

end StablePool
