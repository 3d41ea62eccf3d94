import StablePool.Pool.Deposit

/-!
# Withdrawals

Tokens can be burned in three ways: for the same share of every asset, for chosen amounts of each
asset, or for one asset alone. The first is free of charge. The second is charged as a deposit is.
The third is charged on the distance of each balance from what the share alone would leave of it.
-/

namespace StablePool

/-- The payout of a withdrawal in one asset, in native units. -/
structure AssetWithdrawal where
  amount : Amount
  /-- The payout if no deviation fee were charged. -/
  feeFreeAmount : Amount
deriving DecidableEq

namespace Pool

/-- The share of so many tokens in each balance. -/
def sharesOf (p : Pool) (amount : Amount) : Checked (List Amount) :=
  p.balances.mapM fun balance => Word.mulDiv balance amount p.tokenSupply "proportional share"

/-- The assets once a share of each balance is paid out. -/
def payShares (p : Pool) (shares : List Amount) : Checked (List Asset) :=
  (p.assets.zip shares).mapM fun (asset, share) => do
    let balance ← asset.balance.sub share "proportional withdrawal"
    return { asset with balance }

end Pool

/-- Burn tokens for their share of every asset. -/
def InPlace.withdraw (amount : Amount) : InPlace (List Amount) := do
  let p ← InPlace.current
  ensure (p.tokenSupply ≠ 0) (.divisionByZero "no lp supply")
  let tokenSupply ← p.tokenSupply.sub amount "burn exceeds lp supply"
  let shares ← p.sharesOf amount
  let assets ← p.payShares shares
  InPlace.write fun p => { p with assets }
  InPlace.write fun p => { p with tokenSupply }
  Logged.report (.withdrawn amount shares tokenSupply)
  return shares

namespace Pool

/-- What burning tokens for their share of every asset comes to. -/
def withdraw (p : Pool) (amount : Amount) : Logged (List Amount × Pool) :=
  (InPlace.withdraw amount).outcome p

/-- A proportional withdrawal comes to the shares of the tokens, once there are enough of them. -/
theorem withdraw_eq (p : Pool) (amount : Amount) :
    p.withdraw amount = do
      ensure (p.tokenSupply ≠ 0) (.divisionByZero "no lp supply")
      let tokenSupply ← p.tokenSupply.sub amount "burn exceeds lp supply"
      let shares ← p.sharesOf amount
      let assets ← p.payShares shares
      Logged.report (.withdrawn amount shares tokenSupply)
      return (shares, { p with assets, tokenSupply }) := by
  simp [withdraw, InPlace.withdraw]

/-- What a withdrawal of chosen amounts would do. -/
def quoteWithdrawAmounts (p : Pool) (amounts : List Amount) : Logged LiquidityQuote := do
  p.expectOneEach amounts
  let d0 ← p.invariant
  let after ← (p.balances.zip amounts).mapM fun (held, taken) =>
    held.sub taken "withdrawal exceeds balance"
  let d1 ← p.invariantOf after
  let charges ← p.deviationCharges d0 d1 after
  let net ← netOfFees after charges "withdrawal net of fees"
  let entries ← netOfAdminFees after charges "withdrawal net of admin fees"
  let d2 ← p.invariantOf net
  let shrink ← d0.minus d2 (.negativeOutput "withdrawal grows the invariant")
  let burn ← Word.mulDiv p.tokenSupply shrink d0 "lp burn"
  return ⟨burn, entries⟩

end Pool

/-- Take out chosen amounts against as many tokens as they cost. -/
def InPlace.withdrawAmounts (amounts : List Amount) : InPlace Amount := do
  let p ← InPlace.current
  let q ← p.quoteWithdrawAmounts amounts
  let burn := q.tokenAmount
  let tokenSupply ← p.tokenSupply.sub burn "burn exceeds lp supply"
  let assets ← p.settleAssets q.entries
  InPlace.write fun p => { p with assets }
  InPlace.write fun p => { p with tokenSupply }
  Logged.report (.withdrawnAmounts amounts burn tokenSupply)
  return burn

namespace Pool

/-- What taking out chosen amounts comes to. -/
def withdrawAmounts (p : Pool) (amounts : List Amount) : Logged (Amount × Pool) :=
  (InPlace.withdrawAmounts amounts).outcome p

/-- A withdrawal of chosen amounts comes to its quote, once there are enough tokens to burn. -/
theorem withdrawAmounts_eq (p : Pool) (amounts : List Amount) :
    p.withdrawAmounts amounts = do
      let q ← p.quoteWithdrawAmounts amounts
      let burn := q.tokenAmount
      let tokenSupply ← p.tokenSupply.sub burn "burn exceeds lp supply"
      let assets ← p.settleAssets q.entries
      Logged.report (.withdrawnAmounts amounts burn tokenSupply)
      return (burn, { p with assets, tokenSupply }) := by
  simp [withdrawAmounts, InPlace.withdrawAmounts]

/-- The price-scaled balance `x` of asset `k` less the fee for a withdrawal of asset `i` alone,
which brings the invariant from `d0` to `d1` and asset `i` to `y`. -/
def chargeDeparture (rate : FeeRate) (i : Nat) (y d0 d1 x : Amount) (k : Nat) : Checked Amount := do
  let proportional ← Word.mulDiv x d1 d0 "expected balance"
  let departure ←
    if k = i then proportional.sub y "expected withdrawal"
    else x.sub proportional "expected withdrawal"
  let fee ← rate.apply departure
  x.sub fee "fee exceeds balance"

/-- What burning `tokenAmount` tokens for asset `i` alone would pay. -/
def quoteWithdrawAsset (p : Pool) (tokenAmount : Amount) (i : Nat) : Logged AssetWithdrawal := do
  let asset ← entry p.assets i
  let xp ← p.scaled
  let d0 ← p.curveInvariant xp
  let share ← Word.mulDiv tokenAmount d0 p.tokenSupply "lp share"
  let d1 ← d0.sub share "burn exceeds the invariant"
  let free ← Curve.balanceAt i xp d1 p.terms.amplification p.terms.maxIterations
  let rate ← p.terms.fee.imbalanceRate p.assetCount
  let reduced ← xp.zipIdx.mapM fun (x, k) => chargeDeparture rate i free d0 d1 x k
  let y ← Curve.balanceAt i reduced d1 p.terms.amplification p.terms.maxIterations
  let left ← entry reduced i
  let difference ← left.minus y (.negativeOutput "single asset withdrawal")
  let paid ← difference.minus 1 (.negativeOutput "single asset withdrawal")
  let x ← entry xp i
  let paidFree ← x.sub free "fee-free withdrawal"
  let amount ← asset.scale.toNative paid
  let feeFreeAmount ← asset.scale.toNative paidFree
  return { amount, feeFreeAmount }

end Pool

/-- Burn `tokenAmount` tokens for at least `minimum` of asset `i` alone. -/
def InPlace.withdrawAsset (tokenAmount : Amount) (i : Nat) (minimum : Amount) : InPlace Amount := do
  let p ← InPlace.current
  let q ← p.quoteWithdrawAsset tokenAmount i
  ensure (minimum ≤ q.amount) (.slippageExceeded minimum.val q.amount.val)
  let fee := q.feeFreeAmount.monus q.amount
  let adminFee ← p.terms.adminFee.apply fee
  let asset ← entry p.assets i
  let rest ← asset.balance.sub q.amount "single asset withdrawal exceeds balance"
  let balance ← rest.sub adminFee "single asset withdrawal exceeds balance"
  let tokenSupply ← p.tokenSupply.sub tokenAmount "burn exceeds lp supply"
  let adminBalance ← asset.adminBalance.add adminFee "admin balance"
  InPlace.write fun p => { p with assets := p.assets.set i { asset with balance, adminBalance } }
  InPlace.write fun p => { p with tokenSupply }
  Logged.report (.withdrawnAsset tokenAmount i q.amount fee tokenSupply)
  return q.amount

namespace Pool

/-- What burning `tokenAmount` tokens for at least `minimum` of asset `i` alone comes to. -/
def withdrawAsset (p : Pool) (tokenAmount : Amount) (i : Nat) (minimum : Amount) :
    Logged (Amount × Pool) :=
  (InPlace.withdrawAsset tokenAmount i minimum).outcome p

/-- A withdrawal of one asset comes to its quote, once the payout is found to be enough and there are
enough tokens to burn. -/
theorem withdrawAsset_eq (p : Pool) (tokenAmount : Amount) (i : Nat) (minimum : Amount) :
    p.withdrawAsset tokenAmount i minimum = do
      let q ← p.quoteWithdrawAsset tokenAmount i
      ensure (minimum ≤ q.amount) (.slippageExceeded minimum.val q.amount.val)
      let fee := q.feeFreeAmount.monus q.amount
      let adminFee ← p.terms.adminFee.apply fee
      let asset ← entry p.assets i
      let rest ← asset.balance.sub q.amount "single asset withdrawal exceeds balance"
      let balance ← rest.sub adminFee "single asset withdrawal exceeds balance"
      let tokenSupply ← p.tokenSupply.sub tokenAmount "burn exceeds lp supply"
      let adminBalance ← asset.adminBalance.add adminFee "admin balance"
      Logged.report (.withdrawnAsset tokenAmount i q.amount fee tokenSupply)
      return (q.amount,
        { p with assets := p.assets.set i { asset with balance, adminBalance }, tokenSupply }) := by
  simp [withdrawAsset, InPlace.withdrawAsset]

end Pool

end StablePool
