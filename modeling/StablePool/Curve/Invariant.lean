import StablePool.Amplification
import StablePool.Curve.Iteration

/-!
# The invariant of a set of balances

The invariant `D` of `n` price-scaled balances with sum `S` solves

`Ann * S + D = Ann * D + D ^ (n + 1) / (n ^ n * ∏ x)`,

where `Ann` is `n` times the amplification. It is found by repeating

`D ← (Ann * S + n * P) * D / ((Ann - 1) * D + (n + 1) * P)`

from `D = S`, with the product term `P = D ^ (n + 1) / (n ^ n * ∏ x)`. The product term is rounded
down after each balance, in the order of the balances, and the step is rounded down once more.
-/

namespace StablePool.Curve

/-- The sum of the balances. -/
def total (xp : List Amount) : Checked Wide :=
  xp.foldlM (fun sum x => sum.add x.widen "D: sum overflow") 0

/-- The product term of the invariant, rounded down after each balance. -/
def productTerm (xp : List Amount) (d : Wide) : Checked Wide :=
  xp.foldlM
    (fun term x => do
      let divisor ← x.widen.times xp.length "D: n·x"
      let grown ← term.mul d "D: D_P·D"
      grown.div divisor "D: D_P fold")
    d

/-- The next iterate of the invariant after `d`, where `annSum` is `ann` times the sum of the
balances. -/
def invariantPass (xp : List Amount) (ann : Amount) (annSum d : Wide) : Checked Wide := do
  let term ← productTerm xp d
  let weighted ← term.times xp.length "D: n·D_P"
  let sum ← annSum.add weighted "D: numerator sum"
  let numerator ← sum.mul d "D: numerator"
  let linear ← d.times (ann.val - 1) "D: (Ann - 1)·D"
  let power ← term.times (xp.length + 1) "D: (n + 1)·D_P"
  let denominator ← linear.add power "D: denominator"
  numerator.div denominator "D: denominator"

/-- The invariant of price-scaled balances. It is zero if all of them are; otherwise every balance
must be positive. -/
def invariant (xp : List Amount) (a : Amplification) (bound : Nat) : Logged Amount := do
  ensure (2 ≤ xp.length) (.invalidConfiguration "invariant needs at least two balances")
  let sum ← total xp
  if sum = 0 then
    return 0
  ensure (0 ∉ xp) (.divisionByZero "D: zero price-scaled balance")
  let ann ← a.ann xp.length
  let annSum ← ann.widen.mul sum "D: Ann·S"
  let ended ← settle (invariantPass xp ann annSum) bound sum
  conclude ended .invariantConverged (.invariantNotConverged bound xp.length)
    (.notConverged "compute_d" bound) "D exceeds u128"

end StablePool.Curve
