import Mathlib.Algebra.BigOperators.Group.List.Basic
import Mathlib.Tactic.Linarith
import Mathlib.Tactic.Ring
import StablePool.Word

/-!
# The folded product of an invariant and balances

Both solvers form a power of the invariant, divided by the number of assets times a balance for each
of the balances. The quotient is rounded down after every balance, which can only lose. How much is lost
depends on the order of the balances: a remainder is multiplied by the invariant and divided by a multiple
of a balance for every balance after it, so that it weighs most before small ones.
-/

namespace StablePool.Curve

/-- The invariant, multiplied by itself and divided by `count` times a balance for each of them in
turn. -/
def foldedProduct (xs : List Amount) (count d : ℕ) : ℕ :=
  xs.foldl (fun c x => c * d / (x.val * count)) d

/-- Rounding down after every balance never exceeds the exact quotient, from any start. -/
theorem foldl_mul_prod_le (xs : List Amount) (count d c : ℕ) :
    xs.foldl (fun c x => c * d / (x.val * count)) c *
      (count ^ xs.length * (xs.map Word.val).prod) ≤ c * d ^ xs.length := by
  induction xs generalizing c with
  | nil => simp
  | cons x xs ih =>
    have hdiv : c * d / (x.val * count) * (x.val * count) ≤ c * d := Nat.div_mul_le_self _ _
    simp only [List.foldl_cons, List.length_cons, List.map_cons, List.prod_cons]
    calc xs.foldl (fun c x => c * d / (x.val * count)) (c * d / (x.val * count)) *
          (count ^ (xs.length + 1) * (x.val * (xs.map Word.val).prod))
        = xs.foldl (fun c x => c * d / (x.val * count)) (c * d / (x.val * count)) *
            (count ^ xs.length * (xs.map Word.val).prod) * (x.val * count) := by ring
      _ ≤ c * d / (x.val * count) * d ^ xs.length * (x.val * count) :=
          Nat.mul_le_mul_right _ (ih _)
      _ = c * d / (x.val * count) * (x.val * count) * d ^ xs.length := by ring
      _ ≤ c * d * d ^ xs.length := Nat.mul_le_mul_right _ hdiv
      _ = c * d ^ (xs.length + 1) := by ring

/-- The folded product never exceeds the exact quotient. -/
theorem foldedProduct_mul_prod_le (xs : List Amount) (count d : ℕ) :
    foldedProduct xs count d * (count ^ xs.length * (xs.map Word.val).prod) ≤
      d ^ (xs.length + 1) := by
  rw [pow_succ']
  exact foldl_mul_prod_le xs count d d

/-- A bound of what rounding down takes from the exact quotient, times all the divisors: after each balance
less than a multiple of it, times the invariant for every balance that follows. -/
def foldLoss (count d : ℕ) : List Amount → ℕ
  | [] => 0
  | x :: xs => x.val * count * (d ^ xs.length + foldLoss count d xs)

/-- A larger invariant can lose more. -/
theorem foldLoss_mono {count d e : ℕ} (h : d ≤ e) (xs : List Amount) :
    foldLoss count d xs ≤ foldLoss count e xs := by
  induction xs with
  | nil => exact Nat.le_refl 0
  | cons x xs ih => exact Nat.mul_le_mul_left _ (Nat.add_le_add (Nat.pow_le_pow_left h _) ih)

/-- Rounding down after every one of some positive balances loses less than the bound, from any start. -/
theorem lt_foldl_mul_prod_add_foldLoss {count : ℕ} (hcount : 0 < count) (d c : ℕ) {x : Amount}
    {xs : List Amount} (hpos : ∀ y ∈ x :: xs, 0 < y.val) :
    c * d ^ (x :: xs).length <
      (x :: xs).foldl (fun c x => c * d / (x.val * count)) c *
        (count ^ (x :: xs).length * ((x :: xs).map Word.val).prod) + foldLoss count d (x :: xs) := by
  have hdivisor (y : Amount) (hy : y ∈ x :: xs) : 0 < y.val * count := Nat.mul_pos (hpos y hy) hcount
  clear hpos
  induction xs generalizing x c with
  | nil => simpa [foldLoss, Nat.mul_comm] using
      Nat.lt_div_mul_add (a := c * d) (hdivisor x List.mem_cons_self)
  | cons y ys ih =>
    have hx := hdivisor x List.mem_cons_self
    have hdiv : c * d < c * d / (x.val * count) * (x.val * count) + x.val * count :=
      Nat.lt_div_mul_add hx
    have hrest := ih (c * d / (x.val * count)) fun v hv => hdivisor v (List.mem_cons_of_mem x hv)
    have hscaled := Nat.mul_lt_mul_of_pos_left hrest hx
    have hpower := Nat.mul_le_mul_right (d ^ (y :: ys).length) hdiv.le
    rw [List.foldl_cons, List.length_cons, List.map_cons, List.prod_cons, foldLoss]
    generalize (y :: ys).foldl (fun c x => c * d / (x.val * count)) (c * d / (x.val * count)) = rest
      at hscaled ⊢
    generalize c * d / (x.val * count) = quotient at hscaled hpower
    generalize foldLoss count d (y :: ys) = loss at hscaled ⊢
    generalize ((y :: ys).map Word.val).prod = product at hscaled ⊢
    generalize (y :: ys).length = length at hscaled hpower ⊢
    rw [pow_succ, pow_succ]
    linarith

/-- The folded product of some positive balances loses less than the bound. -/
theorem lt_foldedProduct_mul_prod_add_foldLoss {xs : List Amount} (hne : xs ≠ [])
    (hpos : ∀ x ∈ xs, 0 < x.val) {count : ℕ} (hcount : 0 < count) (d : ℕ) :
    d ^ (xs.length + 1) <
      foldedProduct xs count d * (count ^ xs.length * (xs.map Word.val).prod) + foldLoss count d xs := by
  obtain ⟨x, xs, rfl⟩ := List.exists_cons_of_ne_nil hne
  rw [pow_succ']
  exact lt_foldl_mul_prod_add_foldLoss hcount d d hpos

/-- Folding in more balances never takes an invariant of at most one above one. -/
theorem foldedProduct_le_one {xs : List Amount} {count d : ℕ} (hd : d ≤ 1) :
    foldedProduct xs count d ≤ 1 := by
  have hfold (c : ℕ) (hc : c ≤ 1) : xs.foldl (fun c x => c * d / (x.val * count)) c ≤ 1 := by
    induction xs generalizing c with
    | nil => exact hc
    | cons x xs ih =>
      apply ih
      calc c * d / (x.val * count) ≤ c * d := Nat.div_le_self _ _
        _ ≤ 1 * 1 := Nat.mul_le_mul hc hd
  exact hfold d hd

end StablePool.Curve
