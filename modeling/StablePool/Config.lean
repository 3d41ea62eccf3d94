import StablePool.Pool.Basic

/-!
# Configurations

A configuration lists everything a pool starts from. It may come from anywhere and need not make
sense: `Config.Valid` states the rules, and `Config.validate` checks them in a fixed order. Only a
valid configuration gives a pool, and only if its starting balances are amounts.
-/

namespace StablePool

/-- How the starting balances of a pool are given. -/
inductive InitialBalances where
  /-- One native balance for each asset. -/
  | explicit (balances : List Amount)
  /-- A price-scaled total, to be split evenly over the assets. -/
  | uniformDeposit (deposit : Amount)
deriving DecidableEq

/-- Explicit balances are one for each of `count` assets; a deposit can always be split. -/
def InitialBalances.Match (count : Nat) : InitialBalances → Prop
  | explicit balances => balances.length = count
  | uniformDeposit _ => True

/-- Everything that a pool starts from. -/
structure Config where
  assetCount : Word 64
  amplification : Amplification
  fee : FeeRate
  adminFee : FeeRate
  initial : InitialBalances
  priceScales : List PriceScale
  tokenSupply : Amount
  maxIterations : Word 32
deriving DecidableEq

namespace Config

/-- The rules that a configuration has to keep. -/
structure Valid (c : Config) : Prop where
  two_le_assetCount : 2 ≤ c.assetCount.val
  fee_isValid : c.fee.IsValid
  adminFee_isValid : c.adminFee.IsValid
  length_priceScales : c.priceScales.length = c.assetCount.val
  initial_match : c.initial.Match c.assetCount.val
  maxIterations_pos : 0 < c.maxIterations.val

/-- Refuse explicit balances that are not one for each of `count` assets. -/
def checkInitial (count : Nat) : InitialBalances → Checked Unit
  | .explicit balances =>
    ensure (balances.length = count) (.lengthMismatch count balances.length)
  | .uniformDeposit _ => .ok ()

/-- The check accepts exactly the starting balances that match. -/
theorem checkInitial_eq_ok_iff {count : Nat} {initial : InitialBalances} {u : Unit} :
    checkInitial count initial = .ok u ↔ initial.Match count := by
  cases initial
  · exact ensure_eq_ok_iff
  · simp [checkInitial, InitialBalances.Match]

/-- Check the rules; the first one broken is the cause of the refusal. -/
def validate (c : Config) : Checked Unit := do
  let count := c.assetCount.val
  ensure (2 ≤ count) (.invalidConfiguration "a pool needs at least two assets")
  ensure c.fee.IsValid (.invalidConfiguration "fee exceeds the fee denominator")
  ensure c.adminFee.IsValid (.invalidConfiguration "admin fee exceeds the fee denominator")
  ensure (c.priceScales.length = count) (.lengthMismatch count c.priceScales.length)
  checkInitial count c.initial
  ensure (0 < c.maxIterations.val)
    (.invalidConfiguration "iteration bound must be greater than zero")

/-- The check accepts exactly the valid configurations. -/
theorem validate_eq_ok_iff {c : Config} {u : Unit} : c.validate = .ok u ↔ c.Valid := by
  simp only [validate, Checked.bind_eq_ok_iff, ensure_eq_ok_iff, checkInitial_eq_ok_iff,
    exists_const]
  exact ⟨fun ⟨h₁, h₂, h₃, h₄, h₅, h₆⟩ => ⟨h₁, h₂, h₃, h₄, h₅, h₆⟩,
    fun ⟨h₁, h₂, h₃, h₄, h₅, h₆⟩ => ⟨h₁, h₂, h₃, h₄, h₅, h₆⟩⟩

/-- Hand on a configuration only if it is valid. -/
def validated (c : Config) : Checked Config := do
  c.validate
  return c

/-- The bound on the passes of each solve that a configuration has unless it sets another. -/
def defaultMaxIterations : Word 32 := ⟨Curve.defaultBound, by decide⟩

/-- A configuration in which every asset has the scale one, no token has been issued and solves have
the default bound. -/
def create (assetCount : Word 64) (amplification : Amplification) (fee adminFee : FeeRate)
    (initial : InitialBalances) : Checked Config :=
  validated {
    assetCount, amplification, fee, adminFee, initial
    priceScales := List.replicate assetCount.val .one
    tokenSupply := 0
    maxIterations := defaultMaxIterations }

/-- Replace the price scales. -/
def withPriceScales (c : Config) (priceScales : List PriceScale) : Checked Config :=
  validated { c with priceScales }

/-- Replace the number of tokens issued. -/
def withTokenSupply (c : Config) (tokenSupply : Amount) : Config :=
  { c with tokenSupply }

/-- Replace the bound on the passes of each solve. -/
def withMaxIterations (c : Config) (maxIterations : Word 32) : Checked Config :=
  validated { c with maxIterations }

/-- An even share of a deposit among `count` assets, rounded down. -/
def share (deposit : Amount) (count : Nat) : Amount :=
  ⟨deposit.val / count, Nat.lt_of_le_of_lt (Nat.div_le_self ..) deposit.val_lt⟩

/-- The native balances that a pool starts with. -/
def initialBalances (c : Config) : Checked (List Amount) :=
  match c.initial with
  | .explicit balances => .ok balances
  | .uniformDeposit deposit =>
    c.priceScales.mapM fun scale =>
      Word.mulDiv (share deposit c.assetCount.val) base scale.factor "uniform deposit share"

end Config

/-- The pool of a configuration, which must be valid. Nothing is owed to the administrator yet. -/
def Pool.ofConfig (c : Config) : Checked Pool :=
  match h : c.validate with
  | .error cause => .error cause
  | .ok _ => do
    let valid := Config.validate_eq_ok_iff.1 h
    let balances ← c.initialBalances
    return {
      terms := {
        amplification := c.amplification
        fee := c.fee
        adminFee := c.adminFee
        maxIterations := c.maxIterations.val
        fee_isValid := valid.fee_isValid
        adminFee_isValid := valid.adminFee_isValid }
      assets := balances.zipWith (fun balance scale => ⟨balance, 0, scale⟩) c.priceScales
      tokenSupply := c.tokenSupply }

end StablePool
