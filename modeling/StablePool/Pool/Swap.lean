import StablePool.Pool.InPlace

/-!
# Exchanging one asset for another

An exchange raises the price-scaled balance of the input asset and solves for the balance of the
output asset at the current invariant. One unit less than the difference is taken from the curve;
the trade fee is a part of it that stays in the pool, and the rest is paid out. The reverse quote
runs the same steps from the amount that is wanted and adds a unit to the input.
-/

namespace StablePool

/-- The outcome of an exchange, in native units. -/
structure SwapQuote where
  amountOut : Amount
  fee : Amount
  /-- The balance of the input asset afterwards. -/
  balanceIn : Amount
  /-- The balance of the output asset afterwards, which has kept the fee. -/
  balanceOut : Amount
deriving DecidableEq

namespace Pool

/-- The curve seen from two of its assets. -/
structure Pair where
  source : Asset
  target : Asset
  /-- The price-scaled balances of all assets. -/
  xp : List Amount
  /-- Their invariant. -/
  d : Amount
  /-- The price-scaled balance of the source. -/
  x : Amount
  /-- The price-scaled balance of the target. -/
  y : Amount

/-- Look up two different assets and the state of the curve. -/
def pair (p : Pool) (i j : Nat) : Logged Pair := do
  let source ← entry p.assets i
  let target ← entry p.assets j
  ensure (i ≠ j) (.identicalAssets i)
  let xp ← p.scaled
  let d ← p.curveInvariant xp
  let x ← entry xp i
  let y ← entry xp j
  return { source, target, xp, d, x, y }

/-- What an exchange of `dx` of asset `i` for asset `j` would do. -/
def quoteSwap (p : Pool) (i j : Nat) (dx : Amount) : Logged SwapQuote := do
  let pair ← p.pair i j
  let paid ← pair.source.scale.toScaled dx
  let x ← pair.x.add paid "swap input balance"
  let y ← Curve.outputBalance i j x pair.xp pair.d p.terms.amplification p.terms.maxIterations
  let difference ← pair.y.minus y (.negativeOutput "swap output")
  let gross ← difference.minus 1 (.negativeOutput "swap output")
  let fee ← p.terms.fee.apply gross
  let kept ← y.add fee "swap output balance"
  let amountOut ← pair.target.scale.toNative (gross.monus fee)
  let nativeFee ← pair.target.scale.toNative fee
  let balanceIn ← pair.source.scale.toNative x
  let balanceOut ← pair.target.scale.toNative kept
  return { amountOut, fee := nativeFee, balanceIn, balanceOut }

/-- The price-scaled output that nets `net` after a trade fee. No output nets anything after a fee
that takes everything. -/
def grossOutput (fee : FeeRate) (net : Amount) : Checked Amount := do
  let share := FeeRate.denominator - fee.numerator.val
  ensure (share ≠ 0) (.divisionByZero "reverse swap gross output")
  Word.fit (net.val * FeeRate.denominator / share) (.overflow "reverse swap gross output")

/-- The input of asset `i` that buys at least `amountOut` of asset `j`. -/
def quoteReverseSwap (p : Pool) (i j : Nat) (amountOut : Amount) : Logged Amount := do
  let pair ← p.pair i j
  let net ← pair.target.scale.toScaled amountOut
  let gross ← grossOutput p.terms.fee net
  let y ← pair.y.sub gross "reverse swap output exceeds balance"
  let x ← Curve.outputBalance j i y pair.xp pair.d p.terms.amplification p.terms.maxIterations
  let difference ← x.minus pair.x (.negativeOutput "reverse swap input")
  let dx ← Word.fit (difference.val + 1) (.negativeOutput "reverse swap input")
  pair.source.scale.toNative dx

/-- The price-scaled output of the bare curve for a price-scaled input, without a fee and without
the unit that a swap withholds. -/
def curveOutput (p : Pool) (i j : Nat) (dx : Amount) : Logged Amount := do
  let pair ← p.pair i j
  let x ← pair.x.add dx "swap input balance"
  let y ← Curve.outputBalance i j x pair.xp pair.d p.terms.amplification p.terms.maxIterations
  pair.y.minus y (.negativeOutput "curve output")

/-- Replace the balance of asset `i`. -/
def setBalance (p : Pool) (i : Nat) (balance : Amount) : Pool :=
  { p with assets := p.assets.modify i fun asset => { asset with balance } }

end Pool

/-- Exchange `dx` of asset `i` for at least `minimum` of asset `j`. -/
def InPlace.swapAtLeast (i j : Nat) (dx minimum : Amount) : InPlace Amount := do
  let p ← InPlace.current
  let q ← p.quoteSwap i j dx
  ensure (minimum ≤ q.amountOut) (.slippageExceeded minimum.val q.amountOut.val)
  InPlace.write fun p => p.setBalance i q.balanceIn
  InPlace.write fun p => p.setBalance j q.balanceOut
  Logged.report (.swapped i j dx q.amountOut q.fee)
  return q.amountOut

namespace Pool

/-- What an exchange of `dx` of asset `i` for at least `minimum` of asset `j` comes to. -/
def swapAtLeast (p : Pool) (i j : Nat) (dx minimum : Amount) : Logged (Amount × Pool) :=
  (InPlace.swapAtLeast i j dx minimum).outcome p

/-- An exchange comes to its quote, once the output is found to be enough. -/
theorem swapAtLeast_eq (p : Pool) (i j : Nat) (dx minimum : Amount) :
    p.swapAtLeast i j dx minimum = do
      let q ← p.quoteSwap i j dx
      ensure (minimum ≤ q.amountOut) (.slippageExceeded minimum.val q.amountOut.val)
      Logged.report (.swapped i j dx q.amountOut q.fee)
      return (q.amountOut, (p.setBalance i q.balanceIn).setBalance j q.balanceOut) := by
  simp [swapAtLeast, InPlace.swapAtLeast]

/-- Exchange `dx` of asset `i` for whatever it yields of asset `j`. -/
def swap (p : Pool) (i j : Nat) (dx : Amount) : Logged (Amount × Pool) :=
  p.swapAtLeast i j dx 0

end Pool

end StablePool
