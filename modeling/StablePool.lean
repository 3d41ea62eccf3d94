import StablePool.Config.Encoding
import StablePool.Proofs.Curve.Convergence
import StablePool.Proofs.Curve.InvariantBounds
import StablePool.Proofs.Curve.RootBracket
import StablePool.Proofs.Pool.Atomicity
import StablePool.Proofs.Pool.Solvency
import StablePool.Proofs.Pool.ExactAccounts
import StablePool.Proofs.Curve.Computable
import StablePool.Proofs.Pool.SingleAsset
import StablePool.Proofs.Pool.Burning
import StablePool.Proofs.Curve.CurveLevel
import StablePool.Proofs.Pool.SwapInvariant
import StablePool.Proofs.Pool.Liveness
import StablePool.Proofs.Pool.StaysLive
import StablePool.Proofs.Pool.Commitment
import StablePool.Proofs.Pool.IndexChecks
import StablePool.Proofs.Pool.Bookkeeping
import StablePool.Proofs.Agreement
import StablePool.Proofs.Pool.Normalisation
import StablePool.Proofs.Fees
import StablePool.Proofs.Curve.PairedQuadratics
import StablePool.Proofs.Pool.ReverseQuote
import StablePool.Proofs.Curve.Denominators
import StablePool.Proofs.ConfigTexts
import StablePool.Proofs.Curve.LargerBound
import StablePool.Proofs.Pool.LargerBound
import StablePool.Proofs.Curve.OrderedSolves
import StablePool.Proofs.Curve.InvariantAnswers
import StablePool.Proofs.Pool.WithdrawalFees
import StablePool.Proofs.Pool.SwapOrder
import StablePool.Proofs.Curve.RaisedBalance
import StablePool.Proofs.Pool.EvenPool
import StablePool.Proofs.Pool.DepositValue
import StablePool.Proofs.Pool.TradeFee
import StablePool.Proofs.Pool.PartedWithdrawals
import StablePool.Proofs.Pool.EvenLiquidity
import StablePool.Proofs.Curve.OrderedPairs
import StablePool.Proofs.Curve.AssetOrder
import StablePool.Proofs.Curve.RecoveredBalance
import StablePool.Proofs.Curve.SolverAgreement
import StablePool.Proofs.Pool.UniformDeposit
import StablePool.Proofs.Amplification
import StablePool.Proofs.Pool.Conversions
import StablePool.Proofs.Pool.DeviationFees
import StablePool.Proofs.Pool.EventLog
