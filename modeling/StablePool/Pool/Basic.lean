import StablePool.FeeRate
import StablePool.PriceScale
import StablePool.Curve.Balance
import StablePool.Curve.Invariant

/-!
# A pool and its view on the curve

A pool holds some assets on terms that never change, and counts the tokens it has issued. Balances
are kept in native units. Price-scaled balances and the invariant are computed from them whenever
they are needed and are never stored.
-/

namespace StablePool

/-- What a pool has of one asset: its own balance, what it owes the administrator, and the price
scale. -/
structure Asset where
  balance : Amount
  adminBalance : Amount
  scale : PriceScale
deriving DecidableEq

/-- What stays the same for the life of a pool. -/
structure Terms where
  amplification : Amplification
  fee : FeeRate
  /-- The administrator's share of every deviation fee. -/
  adminFee : FeeRate
  /-- The bound on the passes of each solve. -/
  maxIterations : Nat
  fee_isValid : fee.IsValid
  adminFee_isValid : adminFee.IsValid
deriving DecidableEq

/-- A pool of several assets against one token. -/
structure Pool where
  terms : Terms
  assets : List Asset
  tokenSupply : Amount
deriving DecidableEq

namespace Pool

/-- The balances in native units. -/
def balances (p : Pool) : List Amount := p.assets.map Asset.balance

/-- What is owed to the administrator, in native units. -/
def adminBalances (p : Pool) : List Amount := p.assets.map Asset.adminBalance

/-- The price scales of the assets. -/
def scales (p : Pool) : List PriceScale := p.assets.map Asset.scale

/-- The number of assets. -/
def assetCount (p : Pool) : Nat := p.assets.length

@[simp] theorem length_balances (p : Pool) : p.balances.length = p.assetCount := by
  simp [balances, assetCount]

@[simp] theorem length_adminBalances (p : Pool) : p.adminBalances.length = p.assetCount := by
  simp [adminBalances, assetCount]

@[simp] theorem length_scales (p : Pool) : p.scales.length = p.assetCount := by
  simp [scales, assetCount]

section

variable {p : Pool} {k : Nat} {asset : Asset}

/-- The balance at the index of an asset. -/
theorem getElem?_balances (h : p.assets[k]? = some asset) :
    p.balances[k]? = some asset.balance := by
  rw [balances, List.getElem?_map, h, Option.map_some]

/-- What is owed to the administrator at the index of an asset. -/
theorem getElem?_adminBalances (h : p.assets[k]? = some asset) :
    p.adminBalances[k]? = some asset.adminBalance := by
  rw [adminBalances, List.getElem?_map, h, Option.map_some]

/-- The price scale at the index of an asset. -/
theorem getElem?_scales (h : p.assets[k]? = some asset) : p.scales[k]? = some asset.scale := by
  rw [scales, List.getElem?_map, h, Option.map_some]

end

/-- Given balances of the pool's assets in price-scaled units. -/
def scaledOf (p : Pool) (balances : List Amount) : Checked (List Amount) :=
  (balances.zip p.scales).mapM fun (balance, scale) => scale.toScaled balance

/-- The current balances in price-scaled units. -/
def scaled (p : Pool) : Checked (List Amount) := p.scaledOf p.balances

/-- Scaling keeps one entry for each asset. -/
theorem length_of_scaledOf_eq_ok {p : Pool} {balances xp : List Amount}
    (hlen : balances.length = p.assetCount) (h : p.scaledOf balances = .ok xp) :
    xp.length = p.assetCount := by
  have hxp := Checked.length_eq_of_mapM_eq_ok h
  rwa [List.length_zip, hlen, length_scales, Nat.min_self] at hxp

/-- The invariant of price-scaled balances, on the terms of the pool. -/
def curveInvariant (p : Pool) (xp : List Amount) : Logged Amount :=
  Curve.invariant xp p.terms.amplification p.terms.maxIterations

/-- The invariant of given balances of the pool's assets. -/
def invariantOf (p : Pool) (balances : List Amount) : Logged Amount := do
  let xp ← p.scaledOf balances
  p.curveInvariant xp

/-- The invariant of the current balances. -/
def invariant (p : Pool) : Logged Amount := p.invariantOf p.balances

/-- The price-scaled balance of asset `j` that keeps the invariant once asset `i` has the
price-scaled balance `x`. -/
def outputBalance (p : Pool) (i j : Nat) (x : Amount) : Logged Amount := do
  let xp ← p.scaled
  let d ← p.curveInvariant xp
  Curve.outputBalance i j x xp d p.terms.amplification p.terms.maxIterations

/-- The price-scaled balance of asset `i` that gives the invariant `d` beside the other current
balances. -/
def balanceAt (p : Pool) (i : Nat) (d : Amount) : Logged Amount := do
  let xp ← p.scaled
  Curve.balanceAt i xp d p.terms.amplification p.terms.maxIterations

/-- The share of the invariant that one token stands for. -/
def virtualPrice (p : Pool) : Logged Amount := do
  let d ← p.invariant
  Word.mulDiv d base p.tokenSupply "virtual price"

/-- Refuse amounts that are not one for each asset. -/
def expectOneEach (p : Pool) (amounts : List Amount) : Checked Unit :=
  ensure (amounts.length = p.assetCount) (.lengthMismatch p.assetCount amounts.length)

end Pool

end StablePool
