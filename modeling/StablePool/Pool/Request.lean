import StablePool.Pool.Swap
import StablePool.Pool.Withdrawal

/-!
# Requests to a pool

A request either asks about a pool or commands it to change, and is served in place. A history is a
list of requests served one after another.

That a command that is refused changes nothing is not stated here.
-/

namespace StablePool

/-- A question about a pool. -/
inductive Query where
  /-- The terms and the price scales. -/
  | terms
  /-- The price-scaled balances. -/
  | scaled
  /-- The invariant. -/
  | invariant
  /-- The price-scaled balance of asset `j` once asset `i` has the price-scaled balance `x`. -/
  | outputBalance (i j : Nat) (x : Amount)
  /-- The price-scaled balance of asset `i` at the invariant `d`. -/
  | balanceAt (i : Nat) (d : Amount)
  /-- The share of the invariant that one token stands for. -/
  | virtualPrice
  /-- What an exchange would do. -/
  | swap (i j : Nat) (dx : Amount)
  /-- The input that buys `amountOut`. -/
  | reverseSwap (i j : Nat) (amountOut : Amount)
  /-- The output of the bare curve. -/
  | curveOutput (i j : Nat) (dx : Amount)
  /-- What a deposit would do. -/
  | deposit (amounts : List Amount)
  /-- What a withdrawal of chosen amounts would do. -/
  | withdrawAmounts (amounts : List Amount)
  /-- What a withdrawal of asset `i` alone would pay. -/
  | withdrawAsset (tokenAmount : Amount) (i : Nat)
deriving DecidableEq

/-- An operation that changes a pool. -/
inductive Command where
  /-- Exchange `dx` of asset `i` for asset `j`. -/
  | swap (i j : Nat) (dx : Amount)
  /-- Exchange `dx` of asset `i` for at least `minimum` of asset `j`. -/
  | swapAtLeast (i j : Nat) (dx minimum : Amount)
  /-- Pay in amounts. -/
  | deposit (amounts : List Amount)
  /-- Pay in amounts for at least `minimum` tokens. -/
  | depositAtLeast (amounts : List Amount) (minimum : Amount)
  /-- Burn tokens for their share of every asset. -/
  | withdraw (amount : Amount)
  /-- Take out chosen amounts. -/
  | withdrawAmounts (amounts : List Amount)
  /-- Burn tokens for at least `minimum` of asset `i` alone. -/
  | withdrawAsset (tokenAmount : Amount) (i : Nat) (minimum : Amount)
deriving DecidableEq

/-- A query or a command. -/
inductive Request where
  | query (q : Query)
  | command (c : Command)
deriving DecidableEq

/-- What a request yields. -/
inductive Reply where
  /-- One amount: of an asset, of tokens, or on the curve. -/
  | amount (value : Amount)
  /-- One amount for each asset. -/
  | amounts (values : List Amount)
  /-- The quote of an exchange. -/
  | swap (quote : SwapQuote)
  /-- The quote of a deposit or of a withdrawal of chosen amounts. -/
  | liquidity (quote : LiquidityQuote)
  /-- What never changes. -/
  | terms (terms : Terms) (scales : List PriceScale)
deriving DecidableEq

namespace Pool

/-- Answer a query. -/
def ask (p : Pool) : Query → Logged Reply
  | .terms => return .terms p.terms p.scales
  | .scaled => do
    let xp ← p.scaled
    return .amounts xp
  | .invariant => .amount <$> p.invariant
  | .outputBalance i j x => .amount <$> p.outputBalance i j x
  | .balanceAt i d => .amount <$> p.balanceAt i d
  | .virtualPrice => .amount <$> p.virtualPrice
  | .swap i j dx => .swap <$> p.quoteSwap i j dx
  | .reverseSwap i j amountOut => .amount <$> p.quoteReverseSwap i j amountOut
  | .curveOutput i j dx => .amount <$> p.curveOutput i j dx
  | .deposit amounts => .liquidity <$> p.quoteDeposit amounts
  | .withdrawAmounts amounts => .liquidity <$> p.quoteWithdrawAmounts amounts
  | .withdrawAsset tokenAmount i => do
    let q ← p.quoteWithdrawAsset tokenAmount i
    return .amount q.amount

/-- What a command comes to: its reply with the pool that it leads to, or its refusal. -/
def perform (p : Pool) : Command → Logged (Reply × Pool)
  | .swap i j dx => Prod.map .amount id <$> p.swap i j dx
  | .swapAtLeast i j dx minimum => Prod.map .amount id <$> p.swapAtLeast i j dx minimum
  | .deposit amounts => Prod.map .amount id <$> p.deposit amounts
  | .depositAtLeast amounts minimum => Prod.map .amount id <$> p.depositAtLeast amounts minimum
  | .withdraw amount => Prod.map .amounts id <$> p.withdraw amount
  | .withdrawAmounts amounts => Prod.map .amount id <$> p.withdrawAmounts amounts
  | .withdrawAsset tokenAmount i minimum =>
    Prod.map .amount id <$> p.withdrawAsset tokenAmount i minimum

end Pool

namespace InPlace

/-- Carry out a command. -/
def carryOut : Command → InPlace Reply
  | .swap i j dx => .amount <$> swapAtLeast i j dx 0
  | .swapAtLeast i j dx minimum => .amount <$> swapAtLeast i j dx minimum
  | .deposit amounts => .amount <$> depositAtLeast amounts 0
  | .depositAtLeast amounts minimum => .amount <$> depositAtLeast amounts minimum
  | .withdraw amount => .amounts <$> withdraw amount
  | .withdrawAmounts amounts => .amount <$> withdrawAmounts amounts
  | .withdrawAsset tokenAmount i minimum => .amount <$> withdrawAsset tokenAmount i minimum

/-- A command that is carried out comes to its reply or to its refusal. -/
theorem outcome_carryOut (c : Command) (p : Pool) : (carryOut c).outcome p = p.perform c := by
  cases c <;> exact outcome_map _ _ p

/-- Serve a request. -/
def serve : Request → InPlace Reply
  | .query q => do
    let p ← current
    p.ask q
  | .command c => carryOut c

end InPlace

namespace Pool

/-- Answer a request, together with the pool afterwards. -/
def respond (p : Pool) (request : Request) : Logged Reply × Pool := InPlace.serve request p

/-- A query leaves the pool as it was. -/
theorem respond_query (p : Pool) (q : Query) : p.respond (.query q) = (p.ask q, p) := rfl

/-- Serve requests in order; each answer comes with the pool after it. -/
def run (p : Pool) : List Request → List (Logged Reply × Pool)
  | [] => []
  | request :: rest =>
    let served := p.respond request
    served :: served.2.run rest

/-- The pool after all requests. -/
def after (p : Pool) (requests : List Request) : Pool :=
  requests.foldl (fun p request => (p.respond request).2) p

end Pool

end StablePool
