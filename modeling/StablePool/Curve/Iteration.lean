import StablePool.Logged

/-!
# Iteration until two iterates agree

Both solvers of the curve repeat one pass over a wide word until two consecutive iterates lie at
most one unit apart, and give up when a bound on the passes is used up. The lemmas give the last
pass of a finished iteration, carry a property of the iterates to its result, and say that a larger
bound changes nothing but a giving-up. That a given pass does finish is not stated here.
-/

namespace StablePool.Curve

/-- The bound on the passes of a solve, unless a configuration sets another. -/
def defaultBound : Nat := 255

/-- The last iterate of a finished iteration and the number of passes made. -/
structure Settled where
  value : Wide
  passes : Nat
deriving DecidableEq

/-- Go on with an iteration after `done` passes, for at most so many more. -/
def settleFrom (pass : Wide → Checked Wide) (done : Nat) :
    Nat → Wide → Checked (Option Settled)
  | 0, _ => return none
  | more + 1, current => do
    let next ← pass current
    if (next.distance current).val ≤ 1 then
      return some ⟨next, done + 1⟩
    else
      settleFrom pass (done + 1) more next

/-- Repeat a pass until two consecutive iterates agree, at most `bound` times. -/
def settle (pass : Wide → Checked Wide) (bound : Nat) (start : Wide) : Checked (Option Settled) :=
  settleFrom pass 0 bound start

/-- Report how an iteration ended, and narrow its last iterate to an amount. -/
def conclude (ended : Option Settled) (converged : Nat → Event) (gaveUp : Event) (cause : Error)
    (step : String) : Logged Amount :=
  match ended with
  | some settled => do
    Logged.report (converged settled.passes)
    settled.value.narrow step
  | none => do
    Logged.report gaveUp
    Logged.refuse cause

section

variable {converged : Nat → Event} {gaveUp : Event} {cause : Error} {step : String}

@[simp] theorem result_conclude_some (s : Settled) :
    (conclude (some s) converged gaveUp cause step).result = s.value.narrow step := rfl

@[simp] theorem result_conclude_none :
    (conclude none converged gaveUp cause step).result = .error cause := rfl

end

section

variable {pass : Wide → Checked Wide}

/-- A property kept by every pass holds before the last pass, whose iterates agree. -/
theorem exists_last_pass {done bound : Nat} {start : Wide} {s : Settled} (P : Wide → Prop)
    (hstart : P start) (hpass : ∀ x y, P x → pass x = .ok y → P y)
    (h : settleFrom pass done bound start = .ok (some s)) :
    ∃ x, P x ∧ pass x = .ok s.value ∧ (s.value.distance x).val ≤ 1 := by
  induction bound generalizing done start with
  | zero => simp [settleFrom, pure, Except.pure] at h
  | succ bound ih =>
    obtain ⟨next, hnext, h⟩ := Checked.bind_eq_ok_iff.1 h
    split at h
    · next hclose =>
      obtain rfl : (⟨next, done + 1⟩ : Settled) = s := Option.some.inj (Except.ok.inj h)
      exact ⟨start, hstart, hnext, hclose⟩
    · exact ih (hpass _ _ hstart hnext) h

/-- A finished iteration is finished under every larger bound, in the same way. -/
theorem settleFrom_eq_of_le {done bound larger : Nat} {start : Wide} (hle : bound ≤ larger)
    (h : settleFrom pass done bound start ≠ .ok none) :
    settleFrom pass done larger start = settleFrom pass done bound start := by
  induction bound generalizing done start larger with
  | zero => exact absurd rfl h
  | succ bound ih =>
    obtain ⟨larger, rfl⟩ := Nat.exists_eq_add_of_le' (Nat.le_trans (Nat.le_add_left 1 _) hle)
    simp only [settleFrom] at h ⊢
    cases hnext : pass start with
    | error cause => rfl
    | ok next =>
      simp only [hnext, bind, Except.bind] at h ⊢
      split
      · rfl
      · next hfar =>
        rw [if_neg hfar] at h
        exact ih (Nat.le_of_succ_le_succ hle) h

end

end StablePool.Curve
