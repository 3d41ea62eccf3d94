import StablePool.Word

/-!
# The events of a pool

Every solve reports how its iteration ended, and every command that changes a pool reports what it
did. An event holds values; its text is given by `Event.message` and `Event.fields`.
-/

namespace StablePool

/-- How much attention an event asks for. -/
inductive Level where
  | trace
  | debug
  | warn
deriving DecidableEq, Repr

/-- Something that happened while a request was served. -/
inductive Event where
  /-- Two consecutive iterates of the invariant agreed. -/
  | invariantConverged (iterations : Nat)
  /-- The invariant of `count` balances was given up. -/
  | invariantNotConverged (maxIterations count : Nat)
  /-- Two consecutive iterates of a balance agreed. -/
  | balanceConverged (solver : String) (iterations : Nat)
  /-- The balance of one of `count` assets was given up. -/
  | balanceNotConverged (solver : String) (maxIterations count : Nat)
  /-- An amount of asset `i` was exchanged for asset `j`. -/
  | swapped (i j : Nat) (dx amountOut fee : Amount)
  /-- Amounts were paid in against new tokens. -/
  | deposited (amounts : List Amount) (mint supply : Amount)
  /-- Tokens were burned for their share of every asset. -/
  | withdrawn (amount : Amount) (shares : List Amount) (supply : Amount)
  /-- Chosen amounts were paid out against burned tokens. -/
  | withdrawnAmounts (amounts : List Amount) (burn supply : Amount)
  /-- Tokens were burned for asset `i` alone. -/
  | withdrawnAsset (tokenAmount : Amount) (i : Nat) (amount fee supply : Amount)
deriving DecidableEq

namespace Event

/-- Solves that end well are traced, commands are for debugging, and a solve that was given up is
a warning. -/
def level : Event → Level
  | invariantConverged .. | balanceConverged .. => .trace
  | invariantNotConverged .. | balanceNotConverged .. => .warn
  | swapped .. | deposited .. | withdrawn .. | withdrawnAmounts .. | withdrawnAsset .. => .debug

/-- What happened, in words. -/
def message : Event → String
  | invariantConverged .. => "invariant converged"
  | invariantNotConverged .. => "invariant solve did not converge"
  | balanceConverged .. => "balance solve converged"
  | balanceNotConverged .. => "balance solve did not converge"
  | swapped .. => "swap committed"
  | deposited .. => "liquidity added"
  | withdrawn .. => "liquidity removed"
  | withdrawnAmounts .. => "imbalanced liquidity removed"
  | withdrawnAsset .. => "single asset liquidity removed"

/-- Amounts in brackets, set apart by a comma and a blank. -/
def listText (amounts : List Amount) : String :=
  "[" ++ ", ".intercalate (amounts.map toString) ++ "]"

/-- The names and texts of the values an event reports. -/
def fields : Event → List (String × String)
  | invariantConverged iterations => [("iterations", toString iterations)]
  | invariantNotConverged maxIterations count =>
    [("max_iterations", toString maxIterations), ("n", toString count)]
  | balanceConverged solver iterations =>
    [("solver", solver), ("iterations", toString iterations)]
  | balanceNotConverged solver maxIterations count =>
    [("solver", solver), ("max_iterations", toString maxIterations), ("n", toString count)]
  | swapped i j dx amountOut fee =>
    [("i", toString i), ("j", toString j), ("dx", toString dx),
      ("amount_out", toString amountOut), ("fee", toString fee)]
  | deposited amounts mint supply =>
    [("amounts", listText amounts), ("mint", toString mint), ("supply", toString supply)]
  | withdrawn amount shares supply =>
    [("amount", toString amount), ("withdrawn", listText shares), ("supply", toString supply)]
  | withdrawnAmounts amounts burn supply =>
    [("amounts", listText amounts), ("burn", toString burn), ("supply", toString supply)]
  | withdrawnAsset tokenAmount i amount fee supply =>
    [("token_amount", toString tokenAmount), ("i", toString i), ("amount", toString amount),
      ("fee", toString fee), ("supply", toString supply)]

end Event

end StablePool
