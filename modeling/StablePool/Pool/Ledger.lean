import StablePool.Config
import StablePool.Pool.Request

/-!
# What a history moves

Every command that succeeds moves amounts of the assets between its caller and the pool, and mints
or burns tokens. A tally adds up such a quantity over a history; requests that are refused and
queries move nothing. How the tallies relate to the balances is not stated here.
-/

namespace StablePool

/-- The entry of a list of amounts at an asset index, or nothing. -/
def amountAt (amounts : List Amount) (k : Nat) : Nat := (amounts[k]?.map Word.val).getD 0

/-- The amount at an index that a list has. -/
theorem amountAt_of_getElem? {amounts : List Amount} {k : Nat} {amount : Amount}
    (h : amounts[k]? = some amount) : amountAt amounts k = amount.val := by
  simp [amountAt, h]

/-- There is nothing beyond the end of a list. -/
theorem amountAt_of_length_le {amounts : List Amount} {k : Nat} (h : amounts.length ≤ k) :
    amountAt amounts k = 0 := by
  simp [amountAt, h]

namespace Command

/-- What the caller pays in of asset `k`. -/
def paidIn (k : Nat) : Command → Reply → Nat
  | swap i _ dx, _ | swapAtLeast i _ dx _, _ => if i = k then dx.val else 0
  | deposit amounts, _ | depositAtLeast amounts _, _ => amountAt amounts k
  | withdraw _, _ | withdrawAmounts _, _ | withdrawAsset .., _ => 0

/-- What the caller is paid of asset `k`. -/
def paidOut (k : Nat) : Command → Reply → Nat
  | swap _ j _, .amount out | swapAtLeast _ j _ _, .amount out => if j = k then out.val else 0
  | withdraw _, .amounts shares => amountAt shares k
  | withdrawAmounts amounts, _ => amountAt amounts k
  | withdrawAsset _ i _, .amount out => if i = k then out.val else 0
  | _, _ => 0

/-- One for an exchange that takes in asset `k`. -/
def exchangedIn (k : Nat) : Command → Reply → Nat
  | swap i _ _, _ | swapAtLeast i _ _ _, _ => if i = k then 1 else 0
  | _, _ => 0

/-- One for an exchange that pays out asset `k`. -/
def exchangedOut (k : Nat) : Command → Reply → Nat
  | swap _ j _, _ | swapAtLeast _ j _ _, _ => if j = k then 1 else 0
  | _, _ => 0

/-- The tokens minted. -/
def minted : Command → Reply → Nat
  | deposit _, .amount mint | depositAtLeast _ _, .amount mint => mint.val
  | _, _ => 0

/-- The tokens burned. -/
def burned : Command → Reply → Nat
  | withdraw amount, _ => amount.val
  | withdrawAmounts _, .amount burn => burn.val
  | withdrawAsset tokenAmount _ _, _ => tokenAmount.val
  | _, _ => 0

end Command

namespace Pool

/-- A quantity of the served request, if it is a command that succeeded. -/
def counted (quantity : Command → Reply → Nat) : Request → Checked Reply → Nat
  | .command c, .ok reply => quantity c reply
  | _, _ => 0

/-- The sum of a quantity over the commands of a history that succeed. -/
def tally (p : Pool) (quantity : Command → Reply → Nat) : List Request → Nat
  | [] => 0
  | request :: rest =>
    let served := p.respond request
    counted quantity request served.1.result + served.2.tally quantity rest

end Pool

end StablePool
