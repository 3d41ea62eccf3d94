/-!
# Why an operation is refused

Every refusal of the library is one of the causes below. Arithmetic causes carry the name of the
step that failed, configuration causes the rule that was broken, and the others the numbers that
disagree. The wording of all of them is in `Error.message` alone.
-/

namespace StablePool

/-- The cause of a refusal. -/
inductive Error where
  /-- An amount that must leave the curve would be negative. -/
  | negativeOutput (step : String)
  /-- A difference would be negative. -/
  | underflow (step : String)
  /-- A number does not fit its word. -/
  | overflow (step : String)
  /-- A solver used up its iterations before two of them agreed. -/
  | notConverged (solver : String) (iterations : Nat)
  /-- A quotient has the divisor zero. -/
  | divisionByZero (step : String)
  /-- A parameter breaks a rule of the configuration. -/
  | invalidConfiguration (rule : String)
  /-- An asset index lies outside the pool. -/
  | invalidAsset (index count : Nat)
  /-- The two sides of an exchange are one asset. -/
  | identicalAssets (index : Nat)
  /-- A list does not have one entry for each asset. -/
  | lengthMismatch (expected actual : Nat)
  /-- An operation would yield nothing. -/
  | zeroAmount (step : String)
  /-- The yield of an operation is below the caller's minimum. -/
  | slippageExceeded (minimum actual : Nat)
deriving DecidableEq, Repr

/-- The wording of a refusal. -/
def Error.message : Error → String
  | negativeOutput step => s!"negative output: {step}"
  | underflow step => s!"arithmetic underflow: {step}"
  | overflow step => s!"arithmetic overflow: {step}"
  | notConverged solver iterations =>
    s!"{solver} did not converge within {iterations} iterations"
  | divisionByZero step => s!"division by zero: {step}"
  | invalidConfiguration rule => s!"invalid configuration: {rule}"
  | invalidAsset index count => s!"asset index {index} out of range for a {count}-asset pool"
  | identicalAssets index => s!"asset {index} used as both input and output"
  | lengthMismatch expected actual => s!"expected {expected} per-asset amounts, got {actual}"
  | zeroAmount step => s!"zero amount: {step}"
  | slippageExceeded minimum actual => s!"slippage exceeded: minimum {minimum}, got {actual}"

end StablePool
