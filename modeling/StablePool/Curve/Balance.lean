import StablePool.Amplification
import StablePool.Curve.Iteration

/-!
# The balance that keeps an invariant

With every balance but one held fixed, the invariant is quadratic in the free balance `y`:

`y ^ 2 + b * y = D * y + c`,

where `b` is the sum of the fixed balances plus `D / Ann`, and `c` is `D ^ (n + 1)` divided by
`n ^ n`, by every fixed balance and by `Ann`. The root is found by repeating
`y ← (y ^ 2 + c) / (2 * y + b - D)` from `y = D`.
-/

namespace StablePool.Curve

/-- The coefficients of the quadratic of a free balance. -/
structure Quadratic where
  b : Wide
  c : Wide
deriving DecidableEq

/-- Extend the sum and the quotient of the fixed balances so far by one more balance. -/
def holdFixed (count : Nat) (d : Amount) (sofar : Quadratic) (x : Amount) : Checked Quadratic := do
  ensure (x ≠ 0) (.divisionByZero "y: zero fixed balance")
  let sum ← sofar.b.add x.widen "y: sum overflow"
  let divisor ← x.widen.times count "y: x·n"
  let grown ← sofar.c.mul d.widen "y: c·D"
  let quotient ← grown.div divisor "y: c fold"
  return ⟨sum, quotient⟩

/-- The quadratic of the free balance of `count` assets, the others of which are `fixed`. -/
def quadratic (fixed : List Amount) (count : Nat) (d ann : Amount) : Checked Quadratic := do
  let held ← fixed.foldlM (holdFixed count d) ⟨0, d.widen⟩
  let divisor ← ann.widen.times count "y: n·Ann"
  let grown ← held.c.mul d.widen "y: c·D"
  let c ← grown.div divisor "y: c final"
  let share ← d.widen.div ann.widen "y: D / Ann"
  let b ← held.b.add share "y: b"
  return ⟨b, c⟩

/-- The next iterate of the free balance after `y`. -/
def Quadratic.pass (q : Quadratic) (d : Amount) (y : Wide) : Checked Wide := do
  let square ← y.mul y "y: y²"
  let numerator ← square.add q.c "y: y² + c"
  let double ← y.times 2 "y: 2y"
  let raised ← double.add q.b "y: 2y + b"
  let denominator ← raised.sub d.widen "y: denominator below zero"
  numerator.div denominator "y: zero denominator"

/-- The free balance of `count` assets at the invariant `d`. An invariant of at most one is its own
answer. -/
def freeBalance (solver : String) (fixed : List Amount) (count : Nat) (d : Amount)
    (a : Amplification) (bound : Nat) : Logged Amount := do
  ensure (2 ≤ count) (.invalidConfiguration "solve needs at least two balances")
  let ann ← a.ann count
  let q ← quadratic fixed count d ann
  if d.val ≤ 1 then
    return d
  let ended ← settle (q.pass d) bound d.widen
  conclude ended (.balanceConverged solver) (.balanceNotConverged solver bound count)
    (.notConverged solver bound) "y exceeds u128"

/-- The balance of asset `j` that keeps the invariant `d` once asset `i` has the balance `x`. -/
def outputBalance (i j : Nat) (x : Amount) (xp : List Amount) (d : Amount) (a : Amplification)
    (bound : Nat) : Logged Amount := do
  let _ ← entry xp i
  let _ ← entry xp j
  ensure (i ≠ j) (.identicalAssets i)
  freeBalance "solve_for_output" ((xp.set i x).eraseIdx j) xp.length d a bound

/-- The balance of asset `i` that gives the invariant `d` beside the other balances of `xp`. -/
def balanceAt (i : Nat) (xp : List Amount) (d : Amount) (a : Amplification) (bound : Nat) :
    Logged Amount := do
  let _ ← entry xp i
  freeBalance "solve_for_target_d" (xp.eraseIdx i) xp.length d a bound

end StablePool.Curve
