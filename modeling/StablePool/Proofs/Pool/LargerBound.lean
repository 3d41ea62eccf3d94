import StablePool.Proofs.Curve.LargerBound
import StablePool.Proofs.Pool.Bookkeeping

/-!
# A pool under a larger bound

The bound on the passes of a solve is one of the terms of a pool. No operation looks at it but through
the solves it makes, and none goes on after a solve that was given up. So a request either ends with
such a giving-up, or it is answered under every larger bound as before, and leads to the same pool but
for the bound itself.
-/

namespace StablePool

open Logged (GivesUp GivesUpOr)

/-- The same pool with another bound on the passes of each solve. -/
def Pool.withBound (p : Pool) (bound : Nat) : Pool :=
  { p with terms := { p.terms with maxIterations := bound } }

/-- The same reply with another bound in the terms it shows. -/
def Reply.withBound (bound : Nat) : Reply → Reply
  | .terms shown scales => .terms { shown with maxIterations := bound } scales
  | reply => reply

namespace Pool

section

variable (p : Pool) (bound : Nat)

@[simp] theorem terms_withBound :
    (p.withBound bound).terms = { p.terms with maxIterations := bound } := rfl

@[simp] theorem assets_withBound : (p.withBound bound).assets = p.assets := rfl

@[simp] theorem tokenSupply_withBound : (p.withBound bound).tokenSupply = p.tokenSupply := rfl

@[simp] theorem balances_withBound : (p.withBound bound).balances = p.balances := rfl

@[simp] theorem scales_withBound : (p.withBound bound).scales = p.scales := rfl

@[simp] theorem assetCount_withBound : (p.withBound bound).assetCount = p.assetCount := rfl

@[simp] theorem scaledOf_withBound (balances : List Amount) :
    (p.withBound bound).scaledOf balances = p.scaledOf balances := rfl

@[simp] theorem scaled_withBound : (p.withBound bound).scaled = p.scaled := rfl

@[simp] theorem expectOneEach_withBound (amounts : List Amount) :
    (p.withBound bound).expectOneEach amounts = p.expectOneEach amounts := rfl

@[simp] theorem deviationCharges_withBound (d0 d1 : Amount) (after : List Amount) :
    (p.withBound bound).deviationCharges d0 d1 after = p.deviationCharges d0 d1 after := rfl

@[simp] theorem settleAssets_withBound (entries : List AssetQuote) :
    (p.withBound bound).settleAssets entries = p.settleAssets entries := rfl

@[simp] theorem withBound_withBound (other : Nat) :
    (p.withBound bound).withBound other = p.withBound other := rfl

@[simp] theorem setBalance_withBound (i : Nat) (balance : Amount) :
    (p.withBound bound).setBalance i balance = (p.setBalance i balance).withBound bound := rfl

end

section

variable {p : Pool} {larger : Nat} (hle : p.terms.maxIterations ≤ larger)

include hle

/-- The invariant of price-scaled balances is given up, or the same under the larger bound. -/
theorem givesUpOr_curveInvariant (xp : List Amount) :
    GivesUpOr p.terms.maxIterations id (p.curveInvariant xp)
      ((p.withBound larger).curveInvariant xp) :=
  Curve.givesUpOr_invariant xp _ hle

/-- The invariant of balances is given up, or the same under the larger bound. -/
theorem givesUpOr_invariantOf (balances : List Amount) :
    GivesUpOr p.terms.maxIterations id (p.invariantOf balances)
      ((p.withBound larger).invariantOf balances) :=
  .bind_same _ fun xp => givesUpOr_curveInvariant hle xp

/-- The invariant of the pool is given up, or the same under the larger bound. -/
theorem givesUpOr_invariant :
    GivesUpOr p.terms.maxIterations id p.invariant (p.withBound larger).invariant :=
  givesUpOr_invariantOf hle p.balances

/-- The balance solver of the pool gives up, or is the same under the larger bound. -/
theorem givesUpOr_outputBalance (i j : Nat) (x : Amount) :
    GivesUpOr p.terms.maxIterations id (p.outputBalance i j x)
      ((p.withBound larger).outputBalance i j x) :=
  .bind_same _ fun xp => (givesUpOr_curveInvariant hle xp).bind fun d =>
    Curve.givesUpOr_outputBalance i j x xp d _ hle

/-- The balance solver for a given invariant gives up, or is the same under the larger bound. -/
theorem givesUpOr_balanceAt (i : Nat) (d : Amount) :
    GivesUpOr p.terms.maxIterations id (p.balanceAt i d) ((p.withBound larger).balanceAt i d) :=
  .bind_same _ fun xp => Curve.givesUpOr_balanceAt i xp d _ hle

/-- The virtual price is given up, or the same under the larger bound. -/
theorem givesUpOr_virtualPrice :
    GivesUpOr p.terms.maxIterations id p.virtualPrice (p.withBound larger).virtualPrice :=
  (givesUpOr_invariant hle).bind fun _ => .refl _

/-- The state of the curve at two assets is given up, or the same under the larger bound. -/
theorem givesUpOr_pair (i j : Nat) :
    GivesUpOr p.terms.maxIterations id (p.pair i j) ((p.withBound larger).pair i j) := by
  unfold pair
  refine .bind_same _ fun source => .bind_same _ fun target => .bind_same _ fun _ => ?_
  refine .bind_same _ fun xp => (givesUpOr_curveInvariant hle xp).bind fun d => ?_
  exact .refl _

/-- The quote of an exchange is given up, or the same under the larger bound. -/
theorem givesUpOr_quoteSwap (i j : Nat) (dx : Amount) :
    GivesUpOr p.terms.maxIterations id (p.quoteSwap i j dx)
      ((p.withBound larger).quoteSwap i j dx) := by
  unfold quoteSwap
  refine (givesUpOr_pair hle i j).bind fun pair => ?_
  refine .bind_same _ fun paid => .bind_same _ fun x => ?_
  exact (Curve.givesUpOr_outputBalance i j x pair.xp pair.d _ hle).bind fun y => .refl _

/-- The reverse quote is given up, or the same under the larger bound. -/
theorem givesUpOr_quoteReverseSwap (i j : Nat) (amountOut : Amount) :
    GivesUpOr p.terms.maxIterations id (p.quoteReverseSwap i j amountOut)
      ((p.withBound larger).quoteReverseSwap i j amountOut) := by
  unfold quoteReverseSwap
  refine (givesUpOr_pair hle i j).bind fun pair => ?_
  refine .bind_same _ fun net => .bind_same _ fun gross => .bind_same _ fun y => ?_
  exact (Curve.givesUpOr_outputBalance j i y pair.xp pair.d _ hle).bind fun x => .refl _

/-- The output of the bare curve is given up, or the same under the larger bound. -/
theorem givesUpOr_curveOutput (i j : Nat) (dx : Amount) :
    GivesUpOr p.terms.maxIterations id (p.curveOutput i j dx)
      ((p.withBound larger).curveOutput i j dx) := by
  unfold curveOutput
  refine (givesUpOr_pair hle i j).bind fun pair => .bind_same _ fun x => ?_
  exact (Curve.givesUpOr_outputBalance i j x pair.xp pair.d _ hle).bind fun y => .refl _

/-- The quote of a deposit is given up, or the same under the larger bound. -/
theorem givesUpOr_quoteDeposit (amounts : List Amount) :
    GivesUpOr p.terms.maxIterations id (p.quoteDeposit amounts)
      ((p.withBound larger).quoteDeposit amounts) := by
  unfold quoteDeposit
  refine .bind_same _ fun _ => (givesUpOr_invariant hle).bind fun d0 => ?_
  refine .bind_same _ fun after => (givesUpOr_invariantOf hle after).bind fun d1 => ?_
  rw [tokenSupply_withBound]
  split
  · exact .refl _
  · refine .bind_same _ fun charges => .bind_same _ fun net => .bind_same _ fun entries => ?_
    exact (givesUpOr_invariantOf hle net).bind fun d2 => .refl _

/-- The quote of a withdrawal of chosen amounts is given up, or the same under the larger bound. -/
theorem givesUpOr_quoteWithdrawAmounts (amounts : List Amount) :
    GivesUpOr p.terms.maxIterations id (p.quoteWithdrawAmounts amounts)
      ((p.withBound larger).quoteWithdrawAmounts amounts) := by
  unfold quoteWithdrawAmounts
  refine .bind_same _ fun _ => (givesUpOr_invariant hle).bind fun d0 => ?_
  refine .bind_same _ fun after => (givesUpOr_invariantOf hle after).bind fun d1 => ?_
  refine .bind_same _ fun charges => .bind_same _ fun net => .bind_same _ fun entries => ?_
  exact (givesUpOr_invariantOf hle net).bind fun d2 => .refl _

/-- The quote of a withdrawal of one asset is given up, or the same under the larger bound. -/
theorem givesUpOr_quoteWithdrawAsset (tokenAmount : Amount) (i : Nat) :
    GivesUpOr p.terms.maxIterations id (p.quoteWithdrawAsset tokenAmount i)
      ((p.withBound larger).quoteWithdrawAsset tokenAmount i) := by
  unfold quoteWithdrawAsset
  refine .bind_same _ fun asset => .bind_same _ fun xp => ?_
  refine (givesUpOr_curveInvariant hle xp).bind fun d0 => ?_
  refine .bind_same _ fun share => .bind_same _ fun d1 => ?_
  refine (Curve.givesUpOr_balanceAt i xp d1 _ hle).bind fun free => ?_
  refine .bind_same _ fun rate => .bind_same _ fun reduced => ?_
  exact (Curve.givesUpOr_balanceAt i reduced d1 _ hle).bind fun y => .refl _

/-- The answer to a query is given up, or the same under the larger bound. -/
theorem givesUpOr_ask (q : Query) :
    GivesUpOr p.terms.maxIterations (Reply.withBound larger) (p.ask q)
      ((p.withBound larger).ask q) := by
  cases q with
  | terms => exact .inr rfl
  | scaled => exact .bind_same _ fun xp => .inr rfl
  | invariant => exact (givesUpOr_invariant hle).map rfl
  | outputBalance i j x => exact (givesUpOr_outputBalance hle i j x).map rfl
  | balanceAt i d => exact (givesUpOr_balanceAt hle i d).map rfl
  | virtualPrice => exact (givesUpOr_virtualPrice hle).map rfl
  | swap i j dx => exact (givesUpOr_quoteSwap hle i j dx).map rfl
  | reverseSwap i j amountOut => exact (givesUpOr_quoteReverseSwap hle i j amountOut).map rfl
  | curveOutput i j dx => exact (givesUpOr_curveOutput hle i j dx).map rfl
  | deposit amounts => exact (givesUpOr_quoteDeposit hle amounts).map rfl
  | withdrawAmounts amounts => exact (givesUpOr_quoteWithdrawAmounts hle amounts).map rfl
  | withdrawAsset tokenAmount i =>
    exact (givesUpOr_quoteWithdrawAsset hle tokenAmount i).bind fun q => .inr rfl

/-- An exchange is given up, or leads to the same pool but for the bound. -/
theorem givesUpOr_swapAtLeast (i j : Nat) (dx minimum : Amount) :
    GivesUpOr p.terms.maxIterations (Prod.map id (withBound · larger))
      (p.swapAtLeast i j dx minimum) ((p.withBound larger).swapAtLeast i j dx minimum) := by
  rw [swapAtLeast_eq, swapAtLeast_eq]
  refine (givesUpOr_quoteSwap hle i j dx).bind fun q => ?_
  exact .bind_same _ fun _ => .bind_same _ fun _ => .inr rfl

/-- A deposit is given up, or leads to the same pool but for the bound. -/
theorem givesUpOr_depositAtLeast (amounts : List Amount) (minimum : Amount) :
    GivesUpOr p.terms.maxIterations (Prod.map id (withBound · larger))
      (p.depositAtLeast amounts minimum) ((p.withBound larger).depositAtLeast amounts minimum) := by
  rw [depositAtLeast_eq, depositAtLeast_eq]
  refine (givesUpOr_quoteDeposit hle amounts).bind fun q => ?_
  refine .bind_same _ fun _ => .bind_same _ fun _ => .bind_same _ fun tokenSupply => ?_
  exact .bind_same _ fun assets => .bind_same _ fun _ => .inr rfl

/-- A withdrawal of chosen amounts is given up, or leads to the same pool but for the bound. -/
theorem givesUpOr_withdrawAmounts (amounts : List Amount) :
    GivesUpOr p.terms.maxIterations (Prod.map id (withBound · larger))
      (p.withdrawAmounts amounts) ((p.withBound larger).withdrawAmounts amounts) := by
  rw [withdrawAmounts_eq, withdrawAmounts_eq]
  refine (givesUpOr_quoteWithdrawAmounts hle amounts).bind fun q => ?_
  refine .bind_same _ fun tokenSupply => .bind_same _ fun assets => ?_
  exact .bind_same _ fun _ => .inr rfl

/-- A withdrawal of one asset is given up, or leads to the same pool but for the bound. -/
theorem givesUpOr_withdrawAsset (tokenAmount : Amount) (i : Nat) (minimum : Amount) :
    GivesUpOr p.terms.maxIterations (Prod.map id (withBound · larger))
      (p.withdrawAsset tokenAmount i minimum)
      ((p.withBound larger).withdrawAsset tokenAmount i minimum) := by
  rw [withdrawAsset_eq, withdrawAsset_eq]
  refine (givesUpOr_quoteWithdrawAsset hle tokenAmount i).bind fun q => ?_
  refine .bind_same _ fun _ => .bind_same _ fun adminFee => .bind_same _ fun asset => ?_
  refine .bind_same _ fun rest => .bind_same _ fun balance => .bind_same _ fun tokenSupply => ?_
  exact .bind_same _ fun adminBalance => .bind_same _ fun _ => .inr rfl

omit hle in
/-- A withdrawal of a share of every asset makes no solve. -/
theorem givesUpOr_withdraw (amount : Amount) :
    GivesUpOr p.terms.maxIterations (Prod.map id (withBound · larger))
      (p.withdraw amount) ((p.withBound larger).withdraw amount) := by
  rw [withdraw_eq, withdraw_eq]
  refine .bind_same _ fun _ => .bind_same _ fun tokenSupply => .bind_same _ fun shares => ?_
  exact .bind_same _ fun assets => .bind_same _ fun _ => .inr rfl

/-- A command is given up, or leads to the same pool but for the bound. -/
theorem givesUpOr_perform (c : Command) :
    GivesUpOr p.terms.maxIterations (Prod.map (Reply.withBound larger) (withBound · larger))
      (p.perform c) ((p.withBound larger).perform c) := by
  cases c with
  | swap i j dx => exact (givesUpOr_swapAtLeast hle i j dx 0).map rfl
  | swapAtLeast i j dx minimum => exact (givesUpOr_swapAtLeast hle i j dx minimum).map rfl
  | deposit amounts => exact (givesUpOr_depositAtLeast hle amounts 0).map rfl
  | depositAtLeast amounts minimum => exact (givesUpOr_depositAtLeast hle amounts minimum).map rfl
  | withdraw amount => exact (givesUpOr_withdraw amount).map rfl
  | withdrawAmounts amounts => exact (givesUpOr_withdrawAmounts hle amounts).map rfl
  | withdrawAsset tokenAmount i minimum =>
    exact (givesUpOr_withdrawAsset hle tokenAmount i minimum).map rfl

/-- A request is given up, or its answer and the pool afterwards are the same but for the bound. -/
theorem givesUp_or_respond_eq (request : Request) :
    (p.respond request).1.GivesUp p.terms.maxIterations ∨
      (p.withBound larger).respond request =
        (Reply.withBound larger <$> (p.respond request).1, (p.respond request).2.withBound larger) := by
  cases request with
  | query q => exact (givesUpOr_ask hle q).imp_right fun hsame => by rw [respond_query, hsame]; rfl
  | command c =>
    rcases givesUpOr_perform hle c with ⟨solver, hsolver⟩ | hsame
    · exact .inl ⟨solver, by rw [respond_command_of_error hsolver]⟩
    · refine .inr ?_
      cases hresult : (p.perform c).result with
      | error cause =>
        have hlarger : ((p.withBound larger).perform c).result = .error cause := by
          rw [hsame, Logged.result_map, hresult]
          rfl
        rw [respond_command_of_error hresult, respond_command_of_error hlarger, hsame, Logged.log_map]
        rfl
      | ok yielded =>
        obtain ⟨reply, after⟩ := yielded
        have hlarger : ((p.withBound larger).perform c).result =
            .ok (reply.withBound larger, after.withBound larger) := by
          rw [hsame, Logged.result_map, hresult]
          rfl
        rw [respond_command_of_ok hresult, respond_command_of_ok hlarger, hsame, Logged.log_map,
          Logged.map_eq]
        rfl

/-- A request of a history is given up, or all answers and pools on the way are the same but for the
bound. -/
theorem givesUp_or_run_eq (requests : List Request) :
    (∃ served ∈ p.run requests, served.1.GivesUp p.terms.maxIterations) ∨
      (p.withBound larger).run requests =
        (p.run requests).map fun served =>
          (Reply.withBound larger <$> served.1, served.2.withBound larger) := by
  induction requests generalizing p with
  | nil => exact .inr rfl
  | cons request rest ih =>
    rcases givesUp_or_respond_eq hle request with hfirst | hsame
    · exact .inl ⟨_, List.mem_cons_self, hfirst⟩
    · have hterms : (p.respond request).2.terms = p.terms := (p.books_of_respond request).1
      have hrest := ih (p := (p.respond request).2) (hterms ▸ hle)
      rw [hterms] at hrest
      rcases hrest with ⟨served, hserved, hgivesUp⟩ | hrest
      · exact .inl ⟨served, List.mem_cons_of_mem _ hserved, hgivesUp⟩
      · exact .inr (by rw [run, run, hsame, List.map_cons, hrest])

end

/-- Raising the bound never changes an outcome. For two pools that differ only in the bound, a request
gives up at the smaller one, or the answer and the pool afterwards are the same under the larger one but
for the bound itself; and so for the solvers of the curve on their own. -/
theorem larger_bound_keeps_outcomes {bound larger : Nat} (hle : bound ≤ larger) :
    (∀ (p : Pool) (request : Request),
      ((p.withBound bound).respond request).1.GivesUp bound ∨
        (p.withBound larger).respond request =
          (Reply.withBound larger <$> ((p.withBound bound).respond request).1,
            ((p.withBound bound).respond request).2.withBound larger)) ∧
    (∀ (xp : List Amount) (a : Amplification),
      (Curve.invariant xp a bound).GivesUp bound ∨
        Curve.invariant xp a larger = Curve.invariant xp a bound) ∧
    (∀ (i j : Nat) (x : Amount) (xp : List Amount) (d : Amount) (a : Amplification),
      (Curve.outputBalance i j x xp d a bound).GivesUp bound ∨
        Curve.outputBalance i j x xp d a larger = Curve.outputBalance i j x xp d a bound) ∧
    (∀ (i : Nat) (xp : List Amount) (d : Amount) (a : Amplification),
      (Curve.balanceAt i xp d a bound).GivesUp bound ∨
        Curve.balanceAt i xp d a larger = Curve.balanceAt i xp d a bound) := by
  refine ⟨fun p request => ?_, fun xp a => ?_, fun i j x xp d a => ?_, fun i xp d a => ?_⟩
  · exact givesUp_or_respond_eq (p := p.withBound bound) hle request
  · exact (Curve.givesUpOr_invariant xp a hle).eq_of_id
  · exact (Curve.givesUpOr_outputBalance i j x xp d a hle).eq_of_id
  · exact (Curve.givesUpOr_balanceAt i xp d a hle).eq_of_id

/-- An uneven pool under the bounds five and seven: a deposit mints the same, an exchange of an asset
for itself is refused alike, and an exchange is given up under the smaller bound alone. -/
theorem larger_bound_keeps_outcomes_five_and_seven :
    let p : Pool := {
      terms := {
        amplification := ⟨.lit 200, by decide⟩
        fee := ⟨.lit 4⟩
        adminFee := ⟨.lit 5000⟩
        maxIterations := Curve.defaultBound
        fee_isValid := by decide
        adminFee_isValid := by decide }
      assets := [⟨.lit (10 ^ 18), .lit 7, .one⟩, ⟨.lit 3000000, 0, ⟨.lit (10 ^ 30), by decide⟩⟩]
      tokenSupply := .lit (4 * 10 ^ 18) }
    let deposit : Request := .command (.deposit [.lit (5 * 10 ^ 17), .lit 100000])
    let exchange : Request := .command (.swap 0 1 (.lit (10 ^ 17)))
    let same : Request := .command (.swap 1 1 1)
    let mint : Amount := .lit 602093301359281451
    5 ≤ 7 ∧ ((p.withBound 5).respond deposit).1.result = .ok (.amount mint) ∧
      (p.withBound 7).respond deposit =
        (Reply.withBound 7 <$> ((p.withBound 5).respond deposit).1,
          ((p.withBound 5).respond deposit).2.withBound 7) ∧
      ((p.withBound 5).respond same).1.result = .error (.identicalAssets 1) ∧
      (p.withBound 7).respond same =
        (Reply.withBound 7 <$> ((p.withBound 5).respond same).1,
          ((p.withBound 5).respond same).2.withBound 7) ∧
      ((p.withBound 5).respond exchange).1.result = .error (.notConverged "solve_for_output" 5) ∧
      ((p.withBound 7).respond exchange).1.result = .ok (.amount (.lit 100748)) := by
  intro p deposit exchange same mint
  have hdeposit : ((p.withBound 5).respond deposit).1.result = .ok (.amount mint) := by
    decide +kernel
  have hsame : ((p.withBound 5).respond same).1.result = .error (.identicalAssets 1) := by
    decide +kernel
  obtain ⟨hrespond, -⟩ := larger_bound_keeps_outcomes (show 5 ≤ 7 by decide)
  refine ⟨by decide, hdeposit, (hrespond p deposit).resolve_left ?_, hsame,
    (hrespond p same).resolve_left ?_, by decide +kernel, by decide +kernel⟩
  · rintro ⟨solver, hsolver⟩
    rw [hdeposit] at hsolver
    cases hsolver
  · rintro ⟨solver, hsolver⟩
    rw [hsame] at hsolver
    cases hsolver

end Pool

end StablePool
