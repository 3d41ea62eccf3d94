import StablePool.Proofs.Pool.Atomicity
import StablePool.Proofs.Pool.CurveEndings

/-!
# How requests end

Every quote and every query ends quietly, and every command ends with the event of what it did, or as
its quote does. None of them goes on after its event, and none reports it before its last check. The
checks refuse an index only if the pool does not have it: an asset index is checked where it enters an
operation, and is used again wherever a list has an entry for each asset.
-/

namespace StablePool

open Checked (RefusesOnly)
open Logged

/-- A check fails on a pool of `count` assets: any cause but a solve that is given up, where a refusal
for an index names the number of the assets and an index beyond them. -/
def Error.IsCheckOf (count : Nat) : Error → Prop
  | .notConverged .. => False
  | .invalidAsset index size => size = count ∧ count ≤ index
  | _ => True

open Error (IsCheckOf)

/-- The checks of a pool cover the checks of its solves. -/
theorem Error.coversCall_isCheckOf (count : Nat) : CoversCall (IsCheckOf count) count where
  arithmetic cause h := by cases cause <;> first | exact h.elim | trivial
  rule _ := trivial
  outside _ h := ⟨rfl, h⟩
  identical _ := trivial

/-- What a command that succeeded has to report: its own arguments, the value it yielded, and the
tokens of the pool it led to. -/
inductive Command.Commits (after : Pool) : Command → Reply → Event → Prop where
  | swap {i j : Nat} {dx out fee : Amount} :
    Commits after (.swap i j dx) (.amount out) (.swapped i j dx out fee)
  | swapAtLeast {i j : Nat} {dx minimum out fee : Amount} :
    Commits after (.swapAtLeast i j dx minimum) (.amount out) (.swapped i j dx out fee)
  | deposit {amounts : List Amount} {mint : Amount} :
    Commits after (.deposit amounts) (.amount mint) (.deposited amounts mint after.tokenSupply)
  | depositAtLeast {amounts : List Amount} {minimum mint : Amount} :
    Commits after (.depositAtLeast amounts minimum) (.amount mint)
      (.deposited amounts mint after.tokenSupply)
  | withdraw {amount : Amount} {shares : List Amount} :
    Commits after (.withdraw amount) (.amounts shares)
      (.withdrawn amount shares after.tokenSupply)
  | withdrawAmounts {amounts : List Amount} {burn : Amount} :
    Commits after (.withdrawAmounts amounts) (.amount burn)
      (.withdrawnAmounts amounts burn after.tokenSupply)
  | withdrawAsset {tokenAmount minimum out fee : Amount} {i : Nat} :
    Commits after (.withdrawAsset tokenAmount i minimum) (.amount out)
      (.withdrawnAsset tokenAmount i out fee after.tokenSupply)

/-- What a command did is for debugging. -/
theorem Command.Commits.level_eq {after : Pool} {c : Command} {reply : Reply} {e : Event}
    (h : c.Commits after reply e) : e.level = .debug := by
  cases h <;> rfl

namespace Pool

variable (p : Pool)

section

variable {count : Nat}

/-- The fee rate on uneven deposits and withdrawals is checked, whatever the number of assets. -/
theorem refusesOnly_imbalanceRate (rate : FeeRate) (size : Nat) :
    RefusesOnly (IsCheckOf count) (rate.imbalanceRate size) := by
  refine RefusesOnly.bind (Checked.refusesOnly_ensure trivial) fun _ _ => ?_
  refine RefusesOnly.bind (Word.refusesOnly_fit trivial) fun scaled _ => ?_
  refine RefusesOnly.bind (Word.refusesOnly_fit trivial) fun numerator _ => ?_
  exact Checked.refusesOnly_pure _

/-- Deviation fees are refused by a check. -/
theorem refusesOnly_deviationCharges (d0 d1 : Amount) (after : List Amount) :
    RefusesOnly (IsCheckOf count) (p.deviationCharges d0 d1 after) := by
  refine (refusesOnly_imbalanceRate _ _).bind fun rate _ => ?_
  refine Checked.refusesOnly_mapM fun held _ => ?_
  refine RefusesOnly.bind (Word.refusesOnly_mulDiv trivial trivial) fun ideal _ => ?_
  refine RefusesOnly.bind (Word.refusesOnly_fit trivial) fun fee _ => ?_
  refine RefusesOnly.bind (Word.refusesOnly_fit trivial) fun adminFee _ => ?_
  exact Checked.refusesOnly_pure _

/-- Taking the whole fees off is refused by a check. -/
theorem refusesOnly_netOfFees (after : List Amount) (charges : List Charge) (step : String) :
    RefusesOnly (IsCheckOf count) (netOfFees after charges step) :=
  Checked.refusesOnly_mapM fun _ _ => Word.refusesOnly_sub trivial

/-- Taking the administrator's shares off is refused by a check. -/
theorem refusesOnly_netOfAdminFees (after : List Amount) (charges : List Charge) (step : String) :
    RefusesOnly (IsCheckOf count) (netOfAdminFees after charges step) :=
  Checked.refusesOnly_mapM fun _ _ =>
    RefusesOnly.bind (Word.refusesOnly_sub trivial) fun _ _ => Checked.refusesOnly_pure _

/-- Carrying out entries is refused by a check. -/
theorem refusesOnly_settleAssets (entries : List AssetQuote) :
    RefusesOnly (IsCheckOf count) (p.settleAssets entries) :=
  Checked.refusesOnly_mapM fun _ _ =>
    RefusesOnly.bind (Word.refusesOnly_add trivial) fun _ _ => Checked.refusesOnly_pure _

/-- Shares are refused by a check. -/
theorem refusesOnly_sharesOf (amount : Amount) :
    RefusesOnly (IsCheckOf count) (p.sharesOf amount) :=
  Checked.refusesOnly_mapM fun _ _ => Word.refusesOnly_mulDiv trivial trivial

/-- Paying shares is refused by a check. -/
theorem refusesOnly_payShares (shares : List Amount) :
    RefusesOnly (IsCheckOf count) (p.payShares shares) :=
  Checked.refusesOnly_mapM fun _ _ =>
    RefusesOnly.bind (Word.refusesOnly_sub trivial) fun _ _ => Checked.refusesOnly_pure _

/-- A charge for a departure is refused by a check. -/
theorem refusesOnly_chargeDeparture (rate : FeeRate) (i : Nat) (y d0 d1 x : Amount) (k : Nat) :
    RefusesOnly (IsCheckOf count) (chargeDeparture rate i y d0 d1 x k) := by
  refine RefusesOnly.bind (Word.refusesOnly_mulDiv trivial trivial) fun proportional _ => ?_
  dsimp only
  split
  all_goals
    refine RefusesOnly.bind (Word.refusesOnly_sub trivial) fun departure _ => ?_
    refine RefusesOnly.bind (Word.refusesOnly_fit trivial) fun fee _ => ?_
    exact Word.refusesOnly_sub trivial

end

/-- The checks of the pool cover the checks of its solves. -/
theorem coversCall : Error.CoversCall (IsCheckOf p.assetCount) p.assetCount :=
  Error.coversCall_isCheckOf p.assetCount

/-- The share of one token is computed quietly. -/
theorem endsQuietly_virtualPrice :
    p.virtualPrice.EndsQuietly (IsCheckOf p.assetCount) p.terms.maxIterations :=
  (p.coversCall.endsQuietly_invariantOf p.balances).bind fun _ _ =>
    endsQuietly_lift (Word.refusesOnly_mulDiv trivial trivial)

/-- The balance that keeps the invariant is looked up among all. -/
theorem endsQuietly_outputBalance (i j : Nat) (x : Amount) :
    (p.outputBalance i j x).EndsQuietly (IsCheckOf p.assetCount) p.terms.maxIterations := by
  refine ends_lift_bind (p.coversCall.refusesOnly_scaledOf p.balances) fun xp hxp => ?_
  have hlength := length_of_scaledOf_eq_ok p.length_balances hxp
  exact (p.coversCall.endsQuietly_curveInvariant xp).bind fun d _ =>
    p.coversCall.endsQuietly_solve hlength i j x d

/-- The balance that gives an invariant is looked up among all. -/
theorem endsQuietly_balanceAt (i : Nat) (d : Amount) :
    (p.balanceAt i d).EndsQuietly (IsCheckOf p.assetCount) p.terms.maxIterations := by
  refine ends_lift_bind (p.coversCall.refusesOnly_scaledOf p.balances) fun xp hxp => ?_
  have hlength := length_of_scaledOf_eq_ok p.length_balances hxp
  exact p.coversCall.endsQuietly_solveAt hlength i d

/-- The quote of an exchange solves twice at most, and goes on in silence. -/
theorem endsQuietly_quoteSwap (i j : Nat) (dx : Amount) :
    (p.quoteSwap i j dx).EndsQuietly (IsCheckOf p.assetCount) p.terms.maxIterations := by
  refine (p.coversCall.endsQuietly_pair i j).bind fun pair hpair => ?_
  refine ends_lift_bind (Word.refusesOnly_mulDiv trivial trivial) fun paid _ => ?_
  refine ends_lift_bind (Word.refusesOnly_add trivial) fun x _ => ?_
  refine (p.coversCall.endsQuietly_solve_of_pair hpair i j x).bind fun y _ => ?_
  refine ends_lift_bind (Word.refusesOnly_minus trivial) fun difference _ => ?_
  refine ends_lift_bind (Word.refusesOnly_minus trivial) fun gross _ => ?_
  refine ends_lift_bind (Word.refusesOnly_fit trivial) fun fee _ => ?_
  refine ends_lift_bind (Word.refusesOnly_add trivial) fun kept _ => ?_
  refine ends_lift_bind (Word.refusesOnly_mulDiv trivial trivial) fun amountOut _ => ?_
  refine ends_lift_bind (Word.refusesOnly_mulDiv trivial trivial) fun nativeFee _ => ?_
  refine ends_lift_bind (Word.refusesOnly_mulDiv trivial trivial) fun balanceIn _ => ?_
  refine ends_lift_bind (Word.refusesOnly_mulDiv trivial trivial) fun balanceOut _ => ?_
  exact endsQuietly_pure _

/-- The reverse quote solves twice at most, and goes on in silence. -/
theorem endsQuietly_quoteReverseSwap (i j : Nat) (amountOut : Amount) :
    (p.quoteReverseSwap i j amountOut).EndsQuietly (IsCheckOf p.assetCount)
      p.terms.maxIterations := by
  refine (p.coversCall.endsQuietly_pair i j).bind fun pair hpair => ?_
  refine ends_lift_bind (Word.refusesOnly_mulDiv trivial trivial) fun net _ => ?_
  refine ends_lift_bind ?_ fun gross _ => ?_
  · exact RefusesOnly.bind (Checked.refusesOnly_ensure trivial) fun _ _ =>
      Word.refusesOnly_fit trivial
  refine ends_lift_bind (Word.refusesOnly_sub trivial) fun y _ => ?_
  refine (p.coversCall.endsQuietly_solve_of_pair hpair j i y).bind fun x _ => ?_
  refine ends_lift_bind (Word.refusesOnly_minus trivial) fun difference _ => ?_
  refine ends_lift_bind (Word.refusesOnly_fit trivial) fun dx _ => ?_
  exact endsQuietly_lift (Word.refusesOnly_mulDiv trivial trivial)

/-- The output of the bare curve is computed quietly. -/
theorem endsQuietly_curveOutput (i j : Nat) (dx : Amount) :
    (p.curveOutput i j dx).EndsQuietly (IsCheckOf p.assetCount) p.terms.maxIterations := by
  refine (p.coversCall.endsQuietly_pair i j).bind fun pair hpair => ?_
  refine ends_lift_bind (Word.refusesOnly_add trivial) fun x _ => ?_
  refine (p.coversCall.endsQuietly_solve_of_pair hpair i j x).bind fun y _ => ?_
  exact endsQuietly_lift (Word.refusesOnly_minus trivial)

/-- The quote of a deposit solves three times at most, with checks between and after the solves. -/
theorem endsQuietly_quoteDeposit (amounts : List Amount) :
    (p.quoteDeposit amounts).EndsQuietly (IsCheckOf p.assetCount) p.terms.maxIterations := by
  refine ends_lift_bind (Checked.refusesOnly_ensure trivial) fun _ _ => ?_
  refine (p.coversCall.endsQuietly_invariantOf p.balances).bind fun d0 _ => ?_
  refine (endsQuietly_mapM fun _ _ => endsQuietly_lift (Word.refusesOnly_add trivial)).bind
    fun after _ => ?_
  refine (p.coversCall.endsQuietly_invariantOf after).bind fun d1 _ => ?_
  split
  · exact endsQuietly_pure _
  refine ends_lift_bind (p.refusesOnly_deviationCharges d0 d1 after) fun charges _ => ?_
  refine ends_lift_bind (refusesOnly_netOfFees _ _ _) fun net _ => ?_
  refine ends_lift_bind (refusesOnly_netOfAdminFees _ _ _) fun entries _ => ?_
  refine (p.coversCall.endsQuietly_invariantOf net).bind fun d2 _ => ?_
  refine ends_lift_bind (Word.refusesOnly_minus trivial) fun growth _ => ?_
  refine ends_lift_bind (Word.refusesOnly_mulDiv trivial trivial) fun mint _ => ?_
  exact endsQuietly_pure _

/-- The quote of a withdrawal of chosen amounts solves three times at most, with checks between and
after the solves. -/
theorem endsQuietly_quoteWithdrawAmounts (amounts : List Amount) :
    (p.quoteWithdrawAmounts amounts).EndsQuietly (IsCheckOf p.assetCount)
      p.terms.maxIterations := by
  refine ends_lift_bind (Checked.refusesOnly_ensure trivial) fun _ _ => ?_
  refine (p.coversCall.endsQuietly_invariantOf p.balances).bind fun d0 _ => ?_
  refine (endsQuietly_mapM fun _ _ => endsQuietly_lift (Word.refusesOnly_sub trivial)).bind
    fun after _ => ?_
  refine (p.coversCall.endsQuietly_invariantOf after).bind fun d1 _ => ?_
  refine ends_lift_bind (p.refusesOnly_deviationCharges d0 d1 after) fun charges _ => ?_
  refine ends_lift_bind (refusesOnly_netOfFees _ _ _) fun net _ => ?_
  refine ends_lift_bind (refusesOnly_netOfAdminFees _ _ _) fun entries _ => ?_
  refine (p.coversCall.endsQuietly_invariantOf net).bind fun d2 _ => ?_
  refine ends_lift_bind (Word.refusesOnly_minus trivial) fun shrink _ => ?_
  refine ends_lift_bind (Word.refusesOnly_mulDiv trivial trivial) fun burn _ => ?_
  exact endsQuietly_pure _

/-- The quote of a withdrawal of one asset solves three times at most; it looks the asset up among all,
and again after all charges. -/
theorem endsQuietly_quoteWithdrawAsset (tokenAmount : Amount) (i : Nat) :
    (p.quoteWithdrawAsset tokenAmount i).EndsQuietly (IsCheckOf p.assetCount)
      p.terms.maxIterations := by
  refine ends_lift_bind (p.coversCall.refusesOnly_entry rfl i) fun asset _ => ?_
  refine ends_lift_bind (p.coversCall.refusesOnly_scaledOf p.balances) fun xp hxp => ?_
  have hlength := length_of_scaledOf_eq_ok p.length_balances hxp
  refine (p.coversCall.endsQuietly_curveInvariant xp).bind fun d0 _ => ?_
  refine ends_lift_bind (Word.refusesOnly_mulDiv trivial trivial) fun share _ => ?_
  refine ends_lift_bind (Word.refusesOnly_sub trivial) fun d1 _ => ?_
  refine (p.coversCall.endsQuietly_solveAt hlength i d1).bind fun free _ => ?_
  refine ends_lift_bind (refusesOnly_imbalanceRate _ _) fun rate _ => ?_
  refine (endsQuietly_mapM fun _ _ => endsQuietly_lift
    (refusesOnly_chargeDeparture _ _ _ _ _ _ _)).bind fun reduced hreduced => ?_
  rw [result_mapM] at hreduced
  have hreduced : reduced.length = p.assetCount := by
    rw [Checked.length_eq_of_mapM_eq_ok hreduced, List.length_zipIdx, hlength]
  refine (p.coversCall.endsQuietly_solveAt hreduced i d1).bind fun y _ => ?_
  refine ends_lift_bind (p.coversCall.refusesOnly_entry hreduced i) fun left _ => ?_
  refine ends_lift_bind (Word.refusesOnly_minus trivial) fun difference _ => ?_
  refine ends_lift_bind (Word.refusesOnly_minus trivial) fun paid _ => ?_
  refine ends_lift_bind (p.coversCall.refusesOnly_entry hlength i) fun x _ => ?_
  refine ends_lift_bind (Word.refusesOnly_sub trivial) fun paidFree _ => ?_
  refine ends_lift_bind (Word.refusesOnly_mulDiv trivial trivial) fun amount _ => ?_
  refine ends_lift_bind (Word.refusesOnly_mulDiv trivial trivial) fun feeFree _ => ?_
  exact endsQuietly_pure _

/-- Every query ends quietly. -/
theorem endsQuietly_ask (q : Query) :
    (p.ask q).EndsQuietly (IsCheckOf p.assetCount) p.terms.maxIterations := by
  cases q with
  | terms => exact endsQuietly_pure _
  | scaled =>
    exact ends_lift_bind (p.coversCall.refusesOnly_scaledOf p.balances) fun _ _ =>
      endsQuietly_pure _
  | invariant => exact (p.coversCall.endsQuietly_invariantOf p.balances).map _
  | outputBalance i j x => exact (p.endsQuietly_outputBalance i j x).map _
  | balanceAt i d => exact (p.endsQuietly_balanceAt i d).map _
  | virtualPrice => exact p.endsQuietly_virtualPrice.map _
  | swap i j dx => exact (p.endsQuietly_quoteSwap i j dx).map _
  | reverseSwap i j amountOut => exact (p.endsQuietly_quoteReverseSwap i j amountOut).map _
  | curveOutput i j dx => exact (p.endsQuietly_curveOutput i j dx).map _
  | deposit amounts => exact (p.endsQuietly_quoteDeposit amounts).map _
  | withdrawAmounts amounts => exact (p.endsQuietly_quoteWithdrawAmounts amounts).map _
  | withdrawAsset tokenAmount i =>
    exact (p.endsQuietly_quoteWithdrawAsset tokenAmount i).bind fun _ _ => endsQuietly_pure _

/-- An exchange that succeeds reports what it paid out. -/
theorem ends_swapAtLeast (i j : Nat) (dx minimum : Amount) :
    (p.swapAtLeast i j dx minimum).Ends (IsCheckOf p.assetCount) p.terms.maxIterations
      fun yielded last => ∃ fee, last = some (.swapped i j dx yielded.1 fee) := by
  rw [swapAtLeast_eq]
  refine (p.endsQuietly_quoteSwap i j dx).bind fun q _ => ?_
  refine ends_lift_bind (Checked.refusesOnly_ensure trivial) fun _ _ => ?_
  exact ends_report ⟨q.fee, rfl⟩

/-- A deposit that succeeds reports what it minted. -/
theorem ends_depositAtLeast (amounts : List Amount) (minimum : Amount) :
    (p.depositAtLeast amounts minimum).Ends (IsCheckOf p.assetCount) p.terms.maxIterations
      fun yielded last => last = some (.deposited amounts yielded.1 yielded.2.tokenSupply) := by
  rw [depositAtLeast_eq]
  refine (p.endsQuietly_quoteDeposit amounts).bind fun q _ => ?_
  refine ends_lift_bind (Checked.refusesOnly_ensure trivial) fun _ _ => ?_
  refine ends_lift_bind (Checked.refusesOnly_ensure trivial) fun _ _ => ?_
  refine ends_lift_bind (Word.refusesOnly_add trivial) fun tokenSupply _ => ?_
  refine ends_lift_bind (p.refusesOnly_settleAssets q.entries) fun assets _ => ?_
  exact ends_report rfl

/-- A proportional withdrawal that succeeds reports the shares it paid. -/
theorem ends_withdraw (amount : Amount) :
    (p.withdraw amount).Ends (IsCheckOf p.assetCount) p.terms.maxIterations
      fun yielded last => last = some (.withdrawn amount yielded.1 yielded.2.tokenSupply) := by
  rw [withdraw_eq]
  refine ends_lift_bind (Checked.refusesOnly_ensure trivial) fun _ _ => ?_
  refine ends_lift_bind (Word.refusesOnly_sub trivial) fun tokenSupply _ => ?_
  refine ends_lift_bind (p.refusesOnly_sharesOf amount) fun shares _ => ?_
  refine ends_lift_bind (p.refusesOnly_payShares shares) fun assets _ => ?_
  exact ends_report rfl

/-- A withdrawal of chosen amounts that succeeds reports what it burned. -/
theorem ends_withdrawAmounts (amounts : List Amount) :
    (p.withdrawAmounts amounts).Ends (IsCheckOf p.assetCount) p.terms.maxIterations
      fun yielded last =>
        last = some (.withdrawnAmounts amounts yielded.1 yielded.2.tokenSupply) := by
  rw [withdrawAmounts_eq]
  refine (p.endsQuietly_quoteWithdrawAmounts amounts).bind fun q _ => ?_
  refine ends_lift_bind (Word.refusesOnly_sub trivial) fun tokenSupply _ => ?_
  refine ends_lift_bind (p.refusesOnly_settleAssets q.entries) fun assets _ => ?_
  exact ends_report rfl

/-- A withdrawal of one asset that succeeds reports what it paid; after its quote it looks the asset up
once more. -/
theorem ends_withdrawAsset (tokenAmount : Amount) (i : Nat) (minimum : Amount) :
    (p.withdrawAsset tokenAmount i minimum).Ends (IsCheckOf p.assetCount) p.terms.maxIterations
      fun yielded last => ∃ fee,
        last = some (.withdrawnAsset tokenAmount i yielded.1 fee yielded.2.tokenSupply) := by
  rw [withdrawAsset_eq]
  refine (p.endsQuietly_quoteWithdrawAsset tokenAmount i).bind fun q _ => ?_
  refine ends_lift_bind (Checked.refusesOnly_ensure trivial) fun _ _ => ?_
  refine ends_lift_bind (Word.refusesOnly_fit trivial) fun adminFee _ => ?_
  refine ends_lift_bind (p.coversCall.refusesOnly_entry rfl i) fun asset _ => ?_
  refine ends_lift_bind (Word.refusesOnly_sub trivial) fun rest _ => ?_
  refine ends_lift_bind (Word.refusesOnly_sub trivial) fun balance _ => ?_
  refine ends_lift_bind (Word.refusesOnly_sub trivial) fun tokenSupply _ => ?_
  refine ends_lift_bind (Word.refusesOnly_add trivial) fun adminBalance _ => ?_
  exact ends_report ⟨_, rfl⟩

/-- Every command that succeeds reports what it did, and nothing after it. -/
theorem ends_perform (c : Command) :
    (p.perform c).Ends (IsCheckOf p.assetCount) p.terms.maxIterations fun yielded last =>
      ∃ e, last = some e ∧ c.Commits yielded.2 yielded.1 e := by
  cases c with
  | swap i j dx =>
    exact (p.ends_swapAtLeast i j dx 0).map fun _ _ ⟨_, hlast⟩ => ⟨_, hlast, .swap⟩
  | swapAtLeast i j dx minimum =>
    exact (p.ends_swapAtLeast i j dx minimum).map fun _ _ ⟨_, hlast⟩ => ⟨_, hlast, .swapAtLeast⟩
  | deposit amounts =>
    exact (p.ends_depositAtLeast amounts 0).map fun _ _ hlast => ⟨_, hlast, .deposit⟩
  | depositAtLeast amounts minimum =>
    exact (p.ends_depositAtLeast amounts minimum).map fun _ _ hlast => ⟨_, hlast, .depositAtLeast⟩
  | withdraw amount => exact (p.ends_withdraw amount).map fun _ _ hlast => ⟨_, hlast, .withdraw⟩
  | withdrawAmounts amounts =>
    exact (p.ends_withdrawAmounts amounts).map fun _ _ hlast => ⟨_, hlast, .withdrawAmounts⟩
  | withdrawAsset tokenAmount i minimum =>
    exact (p.ends_withdrawAsset tokenAmount i minimum).map
      fun _ _ ⟨_, hlast⟩ => ⟨_, hlast, .withdrawAsset⟩

end Pool

end StablePool
