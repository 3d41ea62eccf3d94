import StablePool.Curve.Balance
import StablePool.Curve.Invariant

/-!
# Solves under a larger bound

The bound on the passes of an iteration enters a solve in one place: the iteration is given up once
the bound is used up. A computation that does not end with such a giving-up therefore runs in the same
way under every larger bound, with the same events and the same value or the same refusal. Sequences
inherit this from their steps, since no step goes on after an iteration that was given up.
-/

namespace StablePool

namespace Logged

variable {α α' β β' : Type}

/-- The computation ends because an iteration was given up at the bound. -/
def GivesUp (bound : Nat) (m : Logged α) : Prop :=
  ∃ solver, m.result = .error (.notConverged solver bound)

/-- The first computation gives up at the bound, or the second is the same but for the view on its
value. -/
def GivesUpOr (bound : Nat) (view : α → α') (m : Logged α) (m' : Logged α') : Prop :=
  m.GivesUp bound ∨ m' = view <$> m

namespace GivesUpOr

variable {bound : Nat} {view : α → α'} {viewNext : β → β'}

/-- A computation is the same as itself. -/
theorem refl (m : Logged α) : GivesUpOr bound id m m := .inr (id_map m).symm

/-- Without a view on the value, the second computation is the first. -/
theorem eq_of_id {m m' : Logged α} (h : GivesUpOr bound id m m') : m.GivesUp bound ∨ m' = m := by
  rwa [GivesUpOr, id_map] at h

/-- What is made of the values of both computations is the same if it commutes with the views. -/
theorem map {m : Logged α} {m' : Logged α'} (h : GivesUpOr bound view m m') {f : α → β}
    {f' : α' → β'} (hf : f' ∘ view = viewNext ∘ f) :
    GivesUpOr bound viewNext (f <$> m) (f' <$> m') := by
  rcases h with ⟨solver, hsolver⟩ | rfl
  · refine .inl ⟨solver, ?_⟩
    rw [result_map, hsolver]
    rfl
  · refine .inr ?_
    rw [← comp_map, ← comp_map, hf]

/-- A sequence gives up with its first part or with its second, or it is the same throughout. -/
theorem bind {first : Logged α} {first' : Logged α'} {next : α → Logged β} {next' : α' → Logged β'}
    (h : GivesUpOr bound view first first')
    (hnext : ∀ a, GivesUpOr bound viewNext (next a) (next' (view a))) :
    GivesUpOr bound viewNext (first >>= next) (first' >>= next') := by
  rcases h with ⟨solver, hsolver⟩ | rfl
  · exact .inl ⟨solver, result_bind_of_error hsolver next⟩
  · rw [GivesUpOr, bind_map_left, map_bind]
    obtain ⟨log, cause | a⟩ := first
    · exact .inr rfl
    · rcases hnext a with ⟨solver, hsolver⟩ | hsame
      · exact .inl ⟨solver, hsolver⟩
      · refine .inr ?_
        change (⟨log ++ (next' (view a)).log, (next' (view a)).result⟩ : Logged _) =
          ⟨log ++ (viewNext <$> next a).log, (viewNext <$> next a).result⟩
        rw [hsame]

/-- A first part that does not depend on the bound is the same in both sequences. -/
theorem bind_same (first : Logged α) {next : α → Logged β} {next' : α → Logged β'}
    (hnext : ∀ a, GivesUpOr bound viewNext (next a) (next' a)) :
    GivesUpOr bound viewNext (first >>= next) (first >>= next') :=
  (refl first).bind hnext

end GivesUpOr

end Logged

namespace Curve

open Logged (GivesUpOr)

variable {bound larger : Nat}

/-- An iteration is given up, or ends in the same way under the larger bound. -/
theorem givesUpOr_conclude (pass : Wide → Checked Wide) (start : Wide) (converged : Nat → Event)
    (gaveUp : Nat → Event) (solver step : String) (hle : bound ≤ larger) :
    GivesUpOr bound id
      (do
        let ended ← settle pass bound start
        conclude ended converged (gaveUp bound) (.notConverged solver bound) step)
      (do
        let ended ← settle pass larger start
        conclude ended converged (gaveUp larger) (.notConverged solver larger) step) := by
  by_cases hnone : settle pass bound start = .ok none
  · refine .inl ⟨solver, ?_⟩
    rw [hnone]
    rfl
  · have hsame : settle pass larger start = settle pass bound start := settleFrom_eq_of_le hle hnone
    rw [hsame]
    cases hended : settle pass bound start with
    | error cause => exact .inr rfl
    | ok ended =>
      cases ended with
      | none => exact absurd hended hnone
      | some settled => exact GivesUpOr.refl _

/-- The invariant of given balances is given up, or the same under the larger bound. -/
theorem givesUpOr_invariant (xp : List Amount) (a : Amplification) (hle : bound ≤ larger) :
    GivesUpOr bound id (invariant xp a bound) (invariant xp a larger) := by
  unfold invariant
  refine .bind_same _ fun _ => .bind_same _ fun sum => ?_
  split
  · exact .refl _
  · refine .bind_same _ fun _ => .bind_same _ fun ann => .bind_same _ fun annSum => ?_
    exact givesUpOr_conclude (invariantPass xp ann annSum) sum .invariantConverged
      (.invariantNotConverged · xp.length) "compute_d" _ hle

/-- A free balance is given up, or the same under the larger bound. -/
theorem givesUpOr_freeBalance (solver : String) (fixed : List Amount) (count : Nat) (d : Amount)
    (a : Amplification) (hle : bound ≤ larger) :
    GivesUpOr bound id (freeBalance solver fixed count d a bound)
      (freeBalance solver fixed count d a larger) := by
  unfold freeBalance
  refine .bind_same _ fun _ => .bind_same _ fun ann => .bind_same _ fun q => ?_
  split
  · exact .refl _
  · exact givesUpOr_conclude (q.pass d) d.widen (.balanceConverged solver)
      (.balanceNotConverged solver · count) solver _ hle

/-- The balance behind an exchange is given up, or the same under the larger bound. -/
theorem givesUpOr_outputBalance (i j : Nat) (x : Amount) (xp : List Amount) (d : Amount)
    (a : Amplification) (hle : bound ≤ larger) :
    GivesUpOr bound id (outputBalance i j x xp d a bound) (outputBalance i j x xp d a larger) :=
  .bind_same _ fun _ => .bind_same _ fun _ => .bind_same _ fun _ =>
    givesUpOr_freeBalance _ _ _ d a hle

/-- The balance at a given invariant is given up, or the same under the larger bound. -/
theorem givesUpOr_balanceAt (i : Nat) (xp : List Amount) (d : Amount) (a : Amplification)
    (hle : bound ≤ larger) :
    GivesUpOr bound id (balanceAt i xp d a bound) (balanceAt i xp d a larger) :=
  .bind_same _ fun _ => givesUpOr_freeBalance _ _ _ d a hle

end Curve

end StablePool
