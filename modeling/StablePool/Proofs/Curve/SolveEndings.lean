import StablePool.Proofs.Curve.SolveRefusals
import StablePool.Proofs.Endings

/-!
# How a solve ends

A solve may answer at once, without an iteration and without an event. Otherwise it traces the iteration
that converged, or warns of the one that was given up and is refused for it. Whatever else it is refused
for, before the iteration, by one of its passes or for the size of the answer, is refused in silence.
-/

namespace StablePool

open Logged

namespace Curve

variable {kind : Error → Prop} {bound : Nat}

/-- The end of an iteration is traced and narrowed, or warned of and refused. -/
theorem endsQuietly_conclude {ended : Option Settled} {converged : Nat → Event} {gaveUp : Event}
    {solver step : String} (hconverged : ∀ passes, (converged passes).level = .trace)
    (hgaveUp : gaveUp.Warns solver bound) (hlarge : kind (.overflow step)) :
    (conclude ended converged gaveUp (.notConverged solver bound) step).EndsQuietly kind bound := by
  cases ended with
  | none => exact ends_refuse hgaveUp
  | some s =>
    exact (endsQuietly_report (hconverged s.passes)).bind fun _ _ =>
      endsQuietly_lift (Word.refusesOnly_narrow hlarge)

end Curve

namespace Error.CoversCall

open Curve

variable {kind : Error → Prop} {count : Nat}

/-- The solve for the invariant ends quietly. -/
theorem endsQuietly_invariant (h : CoversCall kind count) (xp : List Amount) (a : Amplification)
    (bound : Nat) : (invariant xp a bound).EndsQuietly kind bound := by
  refine ends_lift_bind (Checked.refusesOnly_ensure (h.rule _)) fun _ _ => ?_
  refine ends_lift_bind (Checked.refusesOnly_foldlM
    (fun _ _ => Word.refusesOnly_add (h.arithmetic _ trivial)) _ _) fun sum _ => ?_
  split
  · exact endsQuietly_pure _
  refine ends_lift_bind (Checked.refusesOnly_ensure (h.arithmetic _ trivial)) fun _ _ => ?_
  refine ends_lift_bind (Word.refusesOnly_times (h.arithmetic _ trivial)) fun ann _ => ?_
  refine ends_lift_bind (Word.refusesOnly_mul (h.arithmetic _ trivial)) fun annSum _ => ?_
  refine ends_lift_bind (refusesOnly_settleFrom
    (refusesOnly_invariantPass h.arithmetic xp ann annSum) _ _ _) fun ended _ => ?_
  exact endsQuietly_conclude (fun _ => rfl) (.invariant bound _) (h.arithmetic _ trivial)

/-- A solve for a free balance ends quietly. -/
theorem endsQuietly_freeBalance (h : CoversCall kind count) (solver : String) (fixed : List Amount)
    (size : Nat) (d : Amount) (a : Amplification) (bound : Nat) :
    (freeBalance solver fixed size d a bound).EndsQuietly kind bound := by
  refine ends_lift_bind (Checked.refusesOnly_ensure (h.rule _)) fun _ _ => ?_
  refine ends_lift_bind (Word.refusesOnly_times (h.arithmetic _ trivial)) fun ann _ => ?_
  refine ends_lift_bind (refusesOnly_quadratic h.arithmetic _ _ _ _) fun q _ => ?_
  split
  · exact endsQuietly_pure _
  refine ends_lift_bind
    (refusesOnly_settleFrom (q.refusesOnly_pass h.arithmetic d) _ _ _) fun ended _ => ?_
  exact endsQuietly_conclude (fun _ => rfl) (.balance solver bound _) (h.arithmetic _ trivial)

/-- The balance solver behind an exchange ends quietly, whatever its indices. -/
theorem endsQuietly_outputBalance {xp : List Amount} (h : CoversCall kind xp.length) (i j : Nat)
    (x d : Amount) (a : Amplification) (bound : Nat) :
    (outputBalance i j x xp d a bound).EndsQuietly kind bound := by
  refine ends_lift_bind (Checked.refusesOnly_entry (h.outside i)) fun _ _ => ?_
  refine ends_lift_bind (Checked.refusesOnly_entry (h.outside j)) fun _ _ => ?_
  refine ends_lift_bind (Checked.refusesOnly_ensure (h.identical i)) fun _ _ => ?_
  exact h.endsQuietly_freeBalance _ _ _ d a bound

/-- The balance solver for a given invariant ends quietly, whatever its index. -/
theorem endsQuietly_balanceAt {xp : List Amount} (h : CoversCall kind xp.length) (i : Nat)
    (d : Amount) (a : Amplification) (bound : Nat) :
    (balanceAt i xp d a bound).EndsQuietly kind bound := by
  refine ends_lift_bind (Checked.refusesOnly_entry (h.outside i)) fun _ _ => ?_
  exact h.endsQuietly_freeBalance _ _ _ d a bound

end Error.CoversCall

end StablePool
