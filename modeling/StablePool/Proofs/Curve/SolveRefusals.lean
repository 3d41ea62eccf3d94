import StablePool.Curve.Balance
import StablePool.Curve.Invariant
import StablePool.Proofs.Refusal

/-!
# Why a solve is refused

The solvers take their arguments apart, form the coefficients of their equation and repeat a pass.
Every kind of refusal that covers faulty arguments and faulty arithmetic therefore covers them, but
for an iteration that is given up, which has its own cause.

Which of these refusals can be ruled out for given arguments is not stated here.
-/

namespace StablePool

open Checked (RefusesOnly)

namespace Curve

variable {kind : Error → Prop}

section

variable {pass : Wide → Checked Wide}

/-- An iteration is refused by one of its passes, from an iterate with whatever property all passes
keep that do not end it. -/
theorem refusesOnly_settleFrom_of_kept (P : Wide → Prop)
    (hkept : ∀ y z, P y → pass y = .ok z → 1 < (z.distance y).val → P z)
    (hpass : ∀ y, P y → RefusesOnly kind (pass y)) (done bound : Nat) {start : Wide}
    (hstart : P start) :
    RefusesOnly kind (settleFrom pass done bound start) := by
  induction bound generalizing done start with
  | zero => exact Checked.refusesOnly_pure _
  | succ bound ih =>
    refine (hpass start hstart).bind fun next hnext => ?_
    split
    · exact Checked.refusesOnly_pure _
    · next hfar => exact ih (done + 1) (hkept start next hstart hnext (Nat.lt_of_not_le hfar))

/-- An iteration is refused by one of its passes. -/
theorem refusesOnly_settleFrom (hpass : ∀ y, RefusesOnly kind (pass y)) (done bound : Nat)
    (start : Wide) : RefusesOnly kind (settleFrom pass done bound start) :=
  refusesOnly_settleFrom_of_kept (fun _ => True) (fun _ _ _ _ _ => trivial)
    (fun y _ => hpass y) done bound trivial

end

/-- The end of an iteration is refused for its last iterate, or because it was given up. -/
theorem refusesOnly_conclude {ended : Option Settled} {converged : Nat → Event} {gaveUp : Event}
    {cause : Error} {step : String} (hlarge : kind (.overflow step))
    (hgaveUp : ended = none → kind cause) :
    RefusesOnly kind (conclude ended converged gaveUp cause step).result := by
  cases ended with
  | none =>
    intro other hother
    cases hother
    exact hgaveUp rfl
  | some s => exact Word.refusesOnly_narrow hlarge

section

variable (harithmetic : ∀ cause : Error, cause.IsArithmetic → kind cause)

include harithmetic

/-- A pass for a free balance is refused by a step of its arithmetic. -/
theorem Quadratic.refusesOnly_pass (q : Quadratic) (d : Amount) (y : Wide) :
    RefusesOnly kind (q.pass d y) := by
  refine RefusesOnly.bind (Word.refusesOnly_mul (harithmetic _ trivial)) fun square _ => ?_
  refine RefusesOnly.bind (Word.refusesOnly_add (harithmetic _ trivial)) fun numerator _ => ?_
  refine RefusesOnly.bind (Word.refusesOnly_times (harithmetic _ trivial)) fun double _ => ?_
  refine RefusesOnly.bind (Word.refusesOnly_add (harithmetic _ trivial)) fun raised _ => ?_
  refine RefusesOnly.bind (Word.refusesOnly_sub (harithmetic _ trivial)) fun denominator _ => ?_
  exact Word.refusesOnly_div (harithmetic _ trivial)

/-- Holding a balance fixed is refused by a step of the arithmetic, a balance of zero included. -/
theorem refusesOnly_holdFixed (count : Nat) (d : Amount) (sofar : Quadratic) (x : Amount) :
    RefusesOnly kind (holdFixed count d sofar x) := by
  refine RefusesOnly.bind (Checked.refusesOnly_ensure (harithmetic _ trivial)) fun _ _ => ?_
  refine RefusesOnly.bind (Word.refusesOnly_add (harithmetic _ trivial)) fun sum _ => ?_
  refine RefusesOnly.bind (Word.refusesOnly_times (harithmetic _ trivial)) fun divisor _ => ?_
  refine RefusesOnly.bind (Word.refusesOnly_mul (harithmetic _ trivial)) fun grown _ => ?_
  refine RefusesOnly.bind (Word.refusesOnly_div (harithmetic _ trivial)) fun quotient _ => ?_
  exact Checked.refusesOnly_pure _

/-- Forming the quadratic is refused by a step of the arithmetic. -/
theorem refusesOnly_quadratic (fixed : List Amount) (count : Nat) (d ann : Amount) :
    RefusesOnly kind (quadratic fixed count d ann) := by
  refine RefusesOnly.bind (Checked.refusesOnly_foldlM (refusesOnly_holdFixed harithmetic count d) _ _)
    fun held _ => ?_
  refine RefusesOnly.bind (Word.refusesOnly_times (harithmetic _ trivial)) fun divisor _ => ?_
  refine RefusesOnly.bind (Word.refusesOnly_mul (harithmetic _ trivial)) fun grown _ => ?_
  refine RefusesOnly.bind (Word.refusesOnly_div (harithmetic _ trivial)) fun c _ => ?_
  refine RefusesOnly.bind (Word.refusesOnly_div (harithmetic _ trivial)) fun share _ => ?_
  refine RefusesOnly.bind (Word.refusesOnly_add (harithmetic _ trivial)) fun b _ => ?_
  exact Checked.refusesOnly_pure _

/-- Forming a product term is refused by a step of the arithmetic. -/
theorem refusesOnly_productTerm (xp : List Amount) (d : Wide) :
    RefusesOnly kind (productTerm xp d) := by
  refine Checked.refusesOnly_foldlM (fun term x => ?_) _ _
  refine RefusesOnly.bind (Word.refusesOnly_times (harithmetic _ trivial)) fun divisor _ => ?_
  refine RefusesOnly.bind (Word.refusesOnly_mul (harithmetic _ trivial)) fun grown _ => ?_
  exact Word.refusesOnly_div (harithmetic _ trivial)

/-- A pass for the invariant is refused by a step of its arithmetic. -/
theorem refusesOnly_invariantPass (xp : List Amount) (ann : Amount) (annSum d : Wide) :
    RefusesOnly kind (invariantPass xp ann annSum d) := by
  refine RefusesOnly.bind (refusesOnly_productTerm harithmetic xp d) fun term _ => ?_
  refine RefusesOnly.bind (Word.refusesOnly_times (harithmetic _ trivial)) fun weighted _ => ?_
  refine RefusesOnly.bind (Word.refusesOnly_add (harithmetic _ trivial)) fun sum _ => ?_
  refine RefusesOnly.bind (Word.refusesOnly_mul (harithmetic _ trivial)) fun numerator _ => ?_
  refine RefusesOnly.bind (Word.refusesOnly_times (harithmetic _ trivial)) fun linear _ => ?_
  refine RefusesOnly.bind (Word.refusesOnly_times (harithmetic _ trivial)) fun power _ => ?_
  refine RefusesOnly.bind (Word.refusesOnly_add (harithmetic _ trivial)) fun denominator _ => ?_
  exact Word.refusesOnly_div (harithmetic _ trivial)

end

end Curve

namespace Error.CoversCall

open Curve

variable {kind : Error → Prop} {count : Nat}

/-- A solve for a free balance is refused for its arguments or by a step of the arithmetic, or it is
given up. -/
theorem refusesOnly_freeBalance (h : CoversCall kind count) (fixed : List Amount) (size : Nat)
    (d : Amount) (a : Amplification) {solver : String} {bound : Nat}
    (hgaveUp : ∀ q : Quadratic, settle (q.pass d) bound d.widen = .ok none →
      kind (.notConverged solver bound)) :
    RefusesOnly kind (freeBalance solver fixed size d a bound).result := by
  simp only [freeBalance, Logged.result_bind, Logged.result_lift, apply_ite Logged.result,
    Logged.result_pure]
  refine RefusesOnly.bind (Checked.refusesOnly_ensure (h.rule _)) fun _ _ => ?_
  refine RefusesOnly.bind (Word.refusesOnly_times (h.arithmetic _ trivial)) fun ann _ => ?_
  refine RefusesOnly.bind (refusesOnly_quadratic h.arithmetic _ _ _ _) fun q _ => ?_
  split
  · exact Checked.refusesOnly_pure _
  · refine RefusesOnly.bind (refusesOnly_settleFrom (q.refusesOnly_pass h.arithmetic d) _ _ _)
      fun ended hended => ?_
    exact refusesOnly_conclude (h.arithmetic _ trivial) fun hnone => hgaveUp q (hnone ▸ hended)

/-- The balance solver behind an exchange inherits the refusals of the solve, and checks both
indices. -/
theorem refusesOnly_outputBalance {xp : List Amount} (h : CoversCall kind xp.length) (i j : Nat)
    (x d : Amount) (a : Amplification) {bound : Nat}
    (hgaveUp : ∀ q : Quadratic, settle (q.pass d) bound d.widen = .ok none →
      kind (.notConverged "solve_for_output" bound)) :
    RefusesOnly kind (outputBalance i j x xp d a bound).result := by
  simp only [outputBalance, Logged.result_bind, Logged.result_lift]
  refine RefusesOnly.bind (Checked.refusesOnly_entry (h.outside i)) fun _ _ => ?_
  refine RefusesOnly.bind (Checked.refusesOnly_entry (h.outside j)) fun _ _ => ?_
  refine RefusesOnly.bind (Checked.refusesOnly_ensure (h.identical i)) fun _ _ => ?_
  exact h.refusesOnly_freeBalance _ _ d a hgaveUp

/-- The balance solver for a given invariant inherits the refusals of the solve, and checks its
index. -/
theorem refusesOnly_balanceAt {xp : List Amount} (h : CoversCall kind xp.length) (i : Nat)
    (d : Amount) (a : Amplification) {bound : Nat}
    (hgaveUp : ∀ q : Quadratic, settle (q.pass d) bound d.widen = .ok none →
      kind (.notConverged "solve_for_target_d" bound)) :
    RefusesOnly kind (balanceAt i xp d a bound).result := by
  simp only [balanceAt, Logged.result_bind, Logged.result_lift]
  refine RefusesOnly.bind (Checked.refusesOnly_entry (h.outside i)) fun _ _ => ?_
  exact h.refusesOnly_freeBalance _ _ d a hgaveUp

end Error.CoversCall

end StablePool
