import StablePool.Proofs.Curve.SolveEndings
import StablePool.Proofs.Pool.Exchange

/-!
# How a look at the curve ends

An operation looks its assets up, scales the balances and computes the invariant before it does
anything of its own. All of this ends quietly, for every kind of refusal that covers a call: an index is
refused if the pool does not have it, but no index that it has, since each list they look into has an
entry for every asset.
-/

namespace StablePool.Error

open Checked (RefusesOnly)
open Logged

variable {kind : Error → Prop} {p : Pool}

namespace CoversCall

/-- The index of an asset is looked up in a list that has an entry for each. -/
theorem refusesOnly_entry (h : CoversCall kind p.assetCount) {α : Type} {entries : List α}
    (hlength : entries.length = p.assetCount) (i : Nat) : RefusesOnly kind (entry entries i) :=
  Checked.refusesOnly_entry fun hbeyond => hlength ▸ h.outside i (hlength ▸ hbeyond)

/-- Scaling is refused by a step of the arithmetic. -/
theorem refusesOnly_scaledOf (h : CoversCall kind p.assetCount) (balances : List Amount) :
    RefusesOnly kind (p.scaledOf balances) :=
  Checked.refusesOnly_mapM fun _ _ =>
    Word.refusesOnly_mulDiv (h.arithmetic _ trivial) (h.arithmetic _ trivial)

/-- The invariant on the terms of the pool ends as a solve does. -/
theorem endsQuietly_curveInvariant (h : CoversCall kind p.assetCount) (xp : List Amount) :
    (p.curveInvariant xp).EndsQuietly kind p.terms.maxIterations :=
  h.endsQuietly_invariant xp _ _

/-- The invariant of given balances ends as a solve does. -/
theorem endsQuietly_invariantOf (h : CoversCall kind p.assetCount) (balances : List Amount) :
    (p.invariantOf balances).EndsQuietly kind p.terms.maxIterations :=
  ends_lift_bind (h.refusesOnly_scaledOf balances) fun xp _ => h.endsQuietly_curveInvariant xp

/-- A solve on the terms of the pool looks its indices up among the balances of all assets. -/
theorem endsQuietly_solve (h : CoversCall kind p.assetCount) {xp : List Amount}
    (hlength : xp.length = p.assetCount) (i j : Nat) (x d : Amount) :
    (Curve.outputBalance i j x xp d p.terms.amplification p.terms.maxIterations).EndsQuietly kind
      p.terms.maxIterations := by
  rw [← hlength] at h
  exact h.endsQuietly_outputBalance i j x d _ _

/-- A solve on the terms of the pool looks its index up among the balances of all assets. -/
theorem endsQuietly_solveAt (h : CoversCall kind p.assetCount) {xp : List Amount}
    (hlength : xp.length = p.assetCount) (i : Nat) (d : Amount) :
    (Curve.balanceAt i xp d p.terms.amplification p.terms.maxIterations).EndsQuietly kind
      p.terms.maxIterations := by
  rw [← hlength] at h
  exact h.endsQuietly_balanceAt i d _ _

/-- Two assets are looked up among all, and then their price-scaled balances. -/
theorem endsQuietly_pair (h : CoversCall kind p.assetCount) (i j : Nat) :
    (p.pair i j).EndsQuietly kind p.terms.maxIterations := by
  refine ends_lift_bind (h.refusesOnly_entry rfl i) fun source _ => ?_
  refine ends_lift_bind (h.refusesOnly_entry rfl j) fun target _ => ?_
  refine ends_lift_bind (Checked.refusesOnly_ensure (h.identical i)) fun _ _ => ?_
  refine ends_lift_bind (h.refusesOnly_scaledOf _) fun xp hxp => ?_
  have hlength := Pool.length_of_scaledOf_eq_ok p.length_balances hxp
  refine (h.endsQuietly_curveInvariant xp).bind fun d _ => ?_
  refine ends_lift_bind (h.refusesOnly_entry hlength i) fun x _ => ?_
  refine ends_lift_bind (h.refusesOnly_entry hlength j) fun y _ => ?_
  exact endsQuietly_pure _

/-- A solve at a pair that was looked up finds the assets again. -/
theorem endsQuietly_solve_of_pair (h : CoversCall kind p.assetCount) {i j : Nat} {pair : Pool.Pair}
    (hpair : (p.pair i j).result = .ok pair) (k l : Nat) (x : Amount) :
    (Curve.outputBalance k l x pair.xp pair.d p.terms.amplification
      p.terms.maxIterations).EndsQuietly kind p.terms.maxIterations :=
  h.endsQuietly_solve (Pool.pair_eq_ok hpair).length_xp k l x pair.d

end CoversCall

namespace CoversSolve

/-- A look at two assets is refused as a call or a solve is. -/
theorem refusesOnly_pair (h : CoversSolve kind p.assetCount) (i j : Nat) :
    RefusesOnly kind (p.pair i j).result :=
  (h.endsQuietly_pair i j).refusesOnly (fun _ => id) fun solver => h.gaveUp solver _

/-- A solve at a pair that was looked up is refused as a call or a solve is. -/
theorem refusesOnly_solve_of_pair (h : CoversSolve kind p.assetCount) {i j : Nat} {pair : Pool.Pair}
    (hpair : (p.pair i j).result = .ok pair) (k l : Nat) (x : Amount) : RefusesOnly kind
      (Curve.outputBalance k l x pair.xp pair.d p.terms.amplification
        p.terms.maxIterations).result :=
  (h.endsQuietly_solve_of_pair hpair k l x).refusesOnly (fun _ => id) fun solver =>
    h.gaveUp solver _

end CoversSolve

end StablePool.Error
