import StablePool.Proofs.Curve.FreeBalance

/-!
# The two balance solvers agree

An exchange solver replaces one balance and solves for another; the solver for a given invariant takes
all balances but one as they are. Both hold the same balances fixed, in the same order, if their lists
differ only where the one replaces a balance and where both leave one out. They are then one computation:
the same value or the same cause, after the same events, but for the name under which a solver reports
that it settled or was given up.
-/

namespace StablePool

/-- A cause that does not tell which solver was given up. -/
def Error.forgetSolver : Error → Error
  | .notConverged _ iterations => .notConverged "" iterations
  | cause => cause

/-- An event that does not tell which balance solver it is about. -/
def Event.forgetSolver : Event → Event
  | .balanceConverged _ iterations => .balanceConverged "" iterations
  | .balanceNotConverged _ maxIterations count => .balanceNotConverged "" maxIterations count
  | event => event

namespace Logged

variable {α β : Type}

/-- What is left of a computation if it does not tell which solver it used. -/
def forgetSolver (m : Logged α) : Logged α :=
  ⟨m.log.map Event.forgetSolver, m.result.mapError Error.forgetSolver⟩

/-- A sequence forgets what its parts do. -/
theorem forgetSolver_bind (first : Logged α) (next : α → Logged β) :
    (first >>= next).forgetSolver = first.forgetSolver >>= fun a => (next a).forgetSolver := by
  obtain ⟨log, cause | a⟩ := first
  · rfl
  · simp only [bind, forgetSolver, Except.mapError, List.map_append]

end Logged

namespace Curve

section

variable {xp xp' : List Amount} {i j : ℕ} {x : Amount}

/-- Lists that have the same entries but for one index are the same without it. -/
theorem eraseIdx_eq_of_forall_ne (h : ∀ k, k ≠ j → xp[k]? = xp'[k]?) :
    xp.eraseIdx j = xp'.eraseIdx j := by
  apply List.ext_getElem?
  intro k
  rw [List.getElem?_eraseIdx, List.getElem?_eraseIdx]
  split
  · exact h k (by omega)
  · exact h (k + 1) (by omega)

/-- A list that has the new balance of asset `i`, and all others but that of asset `j`, holds the same
balances fixed. -/
theorem eraseIdx_set_eq_of_forall_ne (hi : i < xp.length) (hraised : xp'[i]? = some x)
    (hothers : ∀ k, k ≠ i → k ≠ j → xp'[k]? = xp[k]?) :
    (xp.set i x).eraseIdx j = xp'.eraseIdx j := by
  refine eraseIdx_eq_of_forall_ne fun k hk => ?_
  by_cases hki : k = i
  · rw [hki, List.getElem?_set_self hi, hraised]
  · rw [List.getElem?_set_ne (Ne.symm hki), hothers k hki hk]

end

/-- A solve for a free balance is the same under every name. -/
theorem forgetSolver_freeBalance (solver solver' : String) (fixed : List Amount) (count : ℕ)
    (d : Amount) (a : Amplification) (bound : ℕ) :
    (freeBalance solver fixed count d a bound).forgetSolver =
      (freeBalance solver' fixed count d a bound).forgetSolver := by
  have hconclude (ended : Option Settled) :
      (conclude ended (.balanceConverged solver) (.balanceNotConverged solver bound count)
        (.notConverged solver bound) "y exceeds u128").forgetSolver =
      (conclude ended (.balanceConverged solver') (.balanceNotConverged solver' bound count)
        (.notConverged solver' bound) "y exceeds u128").forgetSolver := by
    cases ended <;> rfl
  simp only [freeBalance, Logged.forgetSolver_bind, apply_ite Logged.forgetSolver, hconclude]

/-- Both balance solvers yield the same value, or are refused with the same cause, after the same events,
but for the name of the solver, whenever the balances given to the second are those of the first with the
new balance in place. Neither outcome depends on the balance of the asset that is solved for. -/
theorem balance_solvers_agree {i j : ℕ} {x : Amount} {xp xp' : List Amount} (hi : i < xp.length)
    (hj : j < xp.length) (hne : i ≠ j) (hlength : xp'.length = xp.length)
    (hraised : xp'[i]? = some x) (hothers : ∀ k, k ≠ i → k ≠ j → xp'[k]? = xp[k]?) (d : Amount)
    (a : Amplification) (bound : ℕ) :
    (outputBalance i j x xp d a bound).forgetSolver = (balanceAt j xp' d a bound).forgetSolver ∧
    ∀ y, outputBalance i j x (xp.set j y) d a bound = outputBalance i j x xp d a bound ∧
      balanceAt j (xp'.set j y) d a bound = balanceAt j xp' d a bound := by
  have hj' : j < xp'.length := hlength ▸ hj
  refine ⟨?_, fun y => ⟨?_, ?_⟩⟩
  · rw [outputBalance_eq_freeBalance hi hj hne, balanceAt_eq_freeBalance hj', hlength,
      eraseIdx_set_eq_of_forall_ne hi hraised hothers]
    exact forgetSolver_freeBalance _ _ _ _ _ _ _
  · have hset : (xp.set j y).length = xp.length := List.length_set
    rw [outputBalance_eq_freeBalance hi hj hne,
      outputBalance_eq_freeBalance (hset ▸ hi) (hset ▸ hj) hne, hset, List.set_comm _ _ hne.symm,
      List.eraseIdx_set_eq]
  · have hset : (xp'.set j y).length = xp'.length := List.length_set
    rw [balanceAt_eq_freeBalance hj', balanceAt_eq_freeBalance (hset ▸ hj'), hset,
      List.eraseIdx_set_eq]

/-- The balance of the second of three assets after a little of the first was paid in, beside two different
balances of the second: one value within 255 passes, and under a single pass one refusal with two names. -/
theorem balance_solvers_agree_uneven :
    let x : Amount := .lit 1512922780182839
    let xp : List Amount := [.lit 1511922780182839, .lit 1932395124083698, .lit 1724082092237124]
    let xp' : List Amount := [x, .lit 7, .lit 1724082092237124]
    let a : Amplification := ⟨.lit 2000, by decide⟩
    let d : Amount := .lit 5168386971290620
    0 < xp.length ∧ 1 < xp.length ∧ 0 ≠ 1 ∧ xp'.length = xp.length ∧ xp'[0]? = some x ∧
      (∀ k, k ≠ 0 → k ≠ 1 → xp'[k]? = xp[k]?) ∧
      (outputBalance 0 1 x xp d a 255).result = .ok (.lit 1931394998613529) ∧
      (outputBalance 0 1 x xp d a 255).forgetSolver = (balanceAt 1 xp' d a 255).forgetSolver ∧
      (balanceAt 1 xp' d a 255).result = .ok (.lit 1931394998613529) ∧
      (outputBalance 0 1 x xp d a 1).result = .error (.notConverged "solve_for_output" 1) ∧
      (outputBalance 0 1 x xp d a 1).forgetSolver = (balanceAt 1 xp' d a 1).forgetSolver ∧
      (balanceAt 1 xp' d a 1).result = .error (.notConverged "solve_for_target_d" 1) ∧
      balanceAt 1 (xp'.set 1 0) d a 255 = balanceAt 1 xp' d a 255 := by
  intro x xp xp' a d
  have hi : 0 < xp.length := by decide
  have hj : 1 < xp.length := by decide
  have hne : 0 ≠ 1 := by decide
  have hothers : ∀ k, k ≠ 0 → k ≠ 1 → xp'[k]? = xp[k]? := by
    rintro (_ | _ | k) hzero hone
    · exact absurd rfl hzero
    · exact absurd rfl hone
    · rfl
  have hlength : xp'.length = xp.length := rfl
  have hraised : xp'[0]? = some x := rfl
  have hagree := balance_solvers_agree hi hj hne hlength hraised hothers d a
  exact ⟨hi, hj, hne, hlength, hraised, hothers, by decide +kernel, (hagree 255).1, by decide +kernel,
    by decide +kernel, (hagree 1).1, by decide +kernel, ((hagree 255).2 0).2⟩

end Curve

end StablePool
