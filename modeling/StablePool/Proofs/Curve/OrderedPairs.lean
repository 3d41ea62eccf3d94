import Mathlib.Data.Nat.Find
import StablePool.Proofs.Curve.Convergence
import StablePool.Proofs.Curve.CurveLevel
import StablePool.Proofs.Curve.Denominators

/-!
# The invariant of a pair in ascending order settles

The product term of two balances is rounded down twice. If the larger balance comes last, the first
remainder is divided by no less than what it was multiplied by, and less than two units are lost. A pass
then leaves at most two thirds of the distance to the last number up to the solution, and less than a unit
more; and it does not fall below that number. From the number itself and from its successor a pass rises
by at most one. A sum of two amounts has 129 bits, so that 255 passes are more than enough.

In descending order more is lost, and the iteration can fall into a cycle.
-/

namespace StablePool.Curve

section

variable {slope k total s d p z : ℕ}

/-- The level of the curve at `t + 1` is above that of the two balances, with `total` their sum and `k` four
times their product. The least such `t` is the last number up to the solution. -/
def LevelAbove (slope k total t : ℕ) : Prop := (slope + 1) * total * k < curveAt 2 slope k (t + 1)

instance (slope k total t : ℕ) : Decidable (LevelAbove slope k total t) :=
  inferInstanceAs (Decidable ((slope + 1) * total * k < curveAt 2 slope k (t + 1)))

/-- The level with its parts. -/
theorem LevelAbove.lt (h : LevelAbove slope k total s) :
    (slope + 1) * total * k < slope * (s + 1) * k + (s + 1) ^ 3 := h

/-- A higher number has a higher level. -/
theorem LevelAbove.mono (h : LevelAbove slope k total s) (hle : s ≤ d) : LevelAbove slope k total d :=
  Nat.lt_of_lt_of_le h (curveAt_mono (Nat.succ_le_succ hle))

/-- Below the sum, the cube of such a number exceeds the sum times `k`. -/
theorem LevelAbove.mul_total_lt (h : LevelAbove slope k total s) (hlt : s < total) :
    k * total < (s + 1) ^ 3 := by
  have hlinear : slope * (s + 1) * k ≤ slope * total * k :=
    Nat.mul_le_mul_right k (Nat.mul_le_mul_left slope hlt)
  have hsum : (slope + 1) * total * k = slope * total * k + k * total := by ring
  have hlevel := h.lt
  omega

/-- A pass that starts two or more units above the last number up to the solution leaves at most two thirds
of the distance to it, and less than a unit more. -/
theorem LevelAbove.three_mul_step_le (h : LevelAbove slope k total s)
    (hstep : IsInvariantStep 2 slope ((slope + 1) * total) p d z) (hloss : d ^ 3 < (p + 2) * k)
    (hslope : 0 < slope) (hs : 2 ≤ s) (hd : s + 2 ≤ d) (hle : d ≤ total) : 3 * z ≤ s + 2 * d + 2 := by
  by_contra hlt
  have hfar : (s + 2 * d + 3) * (slope * d + 3 * p) ≤ 3 * z * (slope * d + 3 * p) :=
    Nat.mul_le_mul_right _ (by omega)
  have hdiv := hstep.mul_le
  have hstart : (s + 2 * d + 3) * (slope * d) + 3 * (s + 3) * p ≤ 3 * d * ((slope + 1) * total) := by
    linarith
  have hproduct := h.mul_total_lt (by omega)
  have hcube : (s + 1) ^ 3 ≤ (s + 1) * d ^ 2 := by
    rw [Nat.pow_succ']
    exact Nat.mul_le_mul_left _ (Nat.pow_le_pow_left (by omega) 2)
  have hk : (s + 1) * k < d ^ 3 := by
    calc (s + 1) * k ≤ k * total := by
          rw [Nat.mul_comm]
          exact Nat.mul_le_mul_left k (by omega)
      _ < (s + 1) ^ 3 := hproduct
      _ ≤ d ^ 3 := Nat.pow_le_pow_left (by omega) 3
  -- The levels of the start and of the solution, both times the start and times `k`.
  have hscaled := Nat.mul_le_mul_right k hstart
  have hlevel := Nat.mul_lt_mul_of_pos_left h.lt (show 0 < 3 * d by omega)
  have htangent := Nat.mul_le_mul_left (3 * d) hcube
  have hlost := Nat.mul_le_mul_left (3 * (s + 3)) hloss.le
  obtain ⟨e, rfl⟩ := Nat.exists_eq_add_of_le (Nat.le_of_add_right_le hd)
  have hgain : e * (slope * (s + e)) * k < 6 * k := by linarith
  have hsix : 6 ≤ e * (slope * (s + e)) := by
    calc 6 ≤ 2 * (1 * (2 + 2)) := by decide
      _ ≤ e * (slope * (s + e)) :=
        Nat.mul_le_mul (by omega) (Nat.mul_le_mul hslope (by omega))
  exact absurd (Nat.lt_of_mul_lt_mul_right hgain) (Nat.not_lt.2 hsix)

/-- From the successor of the last number up to the solution a pass rises by at most a unit. -/
theorem LevelAbove.step_from_succ_le (h : LevelAbove slope k total s)
    (hstep : IsInvariantStep 2 slope ((slope + 1) * total) p (s + 1) z)
    (hloss : (s + 1) ^ 3 < (p + 2) * k) (hs : 2 ≤ s) (hlt : s < total) : z ≤ s + 2 := by
  by_contra hfar
  have hfar : (s + 3) * (slope * (s + 1) + 3 * p) ≤ ((slope + 1) * total + 2 * p) * (s + 1) :=
    (Nat.mul_le_mul_right _ (by omega)).trans hstep.mul_le
  have hk : (s + 1) * k < (s + 1) ^ 3 := by
    refine Nat.lt_of_le_of_lt ?_ (h.mul_total_lt hlt)
    rw [Nat.mul_comm]
    exact Nat.mul_le_mul_left k hlt
  have hstart : (s + 3) * (slope * (s + 1)) + (s + 7) * p ≤ (s + 1) * ((slope + 1) * total) := by
    linarith
  have hscaled := Nat.mul_le_mul_right k hstart
  have hlevel := Nat.mul_lt_mul_of_pos_left h.lt (Nat.succ_pos s)
  have hlost := Nat.mul_le_mul_left (s + 7) hloss.le
  have hthree : 3 * k ≤ (s + 1) * k := Nat.mul_le_mul_right k (by omega)
  have hlinear : 0 ≤ slope * (s + 1) * k := Nat.zero_le _
  linarith

/-- From the last number up to the solution a pass rises by at most a unit, if that number is large or the
amplification is. -/
theorem LevelAbove.step_le_succ (h : LevelAbove slope k total s)
    (hstep : IsInvariantStep 2 slope ((slope + 1) * total) p s z) (hloss : s ^ 3 < (p + 2) * k)
    (hslope : 0 < slope) (hs : 2 ≤ s) (hlt : s < total) (hlarge : 10 ≤ s ∨ 8 ≤ slope) : z ≤ s + 1 := by
  by_contra hfar
  have hfar : (s + 2) * (slope * s + 3 * p) ≤ ((slope + 1) * total + 2 * p) * s :=
    (Nat.mul_le_mul_right _ (by omega)).trans hstep.mul_le
  have hstart : (s + 2) * (slope * s) + (s + 6) * p ≤ s * ((slope + 1) * total) := by linarith
  have hscaled := Nat.mul_le_mul_right k hstart
  have hlevel := Nat.mul_lt_mul_of_pos_left h.lt (show 0 < s by omega)
  have hlost := Nat.mul_le_mul_left (s + 6) hloss.le
  have hgain : slope * (s * k) + 3 * s ^ 3 < 3 * s ^ 2 + s + 2 * (s * k) + 12 * k := by linarith
  rcases hlarge with hten | height
  · have hk : k < (s + 1) ^ 2 := by
      refine Nat.lt_of_mul_lt_mul_right (a := s + 1) ?_
      calc k * (s + 1) ≤ k * total := Nat.mul_le_mul_left k hlt
        _ < (s + 1) ^ 3 := h.mul_total_lt hlt
        _ = (s + 1) ^ 2 * (s + 1) := by ring
    have hone : s * k ≤ slope * (s * k) := Nat.le_mul_of_pos_left _ hslope
    have hmost : (s + 12) * k ≤ (s + 12) * (s ^ 2 + 2 * s) :=
      Nat.mul_le_mul_left _ (Nat.le_of_lt_succ (by linarith))
    nlinarith [Nat.mul_le_mul_left (s ^ 2) hten]
  · have hmany : 8 * (s * k) ≤ slope * (s * k) := Nat.mul_le_mul_right _ height
    have htwo : 2 * k ≤ s * k := Nat.mul_le_mul_right k hs
    nlinarith [Nat.mul_le_mul_left (s ^ 2) hs]

/-- From the sum of two balances a pass rises by at most a unit. -/
theorem step_from_total_le (hstep : IsInvariantStep 2 slope ((slope + 1) * total) p total z)
    (hloss : total ^ 3 < (p + 2) * k) (hslope : 0 < slope) (hk : k ≤ total ^ 2) : z ≤ total + 1 := by
  by_contra hfar
  have hfar : (total + 2) * (slope * total + 3 * p) ≤ ((slope + 1) * total + 2 * p) * total :=
    (Nat.mul_le_mul_right _ (by omega)).trans hstep.mul_le
  have hp : total < p + 2 := by
    refine Nat.lt_of_mul_lt_mul_right (a := total ^ 2) ?_
    calc total * total ^ 2 = total ^ 3 := by ring
      _ < (p + 2) * k := hloss
      _ ≤ (p + 2) * total ^ 2 := Nat.mul_le_mul_left _ hk
  have hproduct : total * total ≤ (p + 1) * total := Nat.mul_le_mul_right total (by omega)
  have hone : total ≤ slope * total := Nat.le_mul_of_pos_left _ hslope
  have hsome := hstep.divisor_pos
  nlinarith

end

/-- Two balances are positive if each of them is. -/
theorem allPositive_pair {a b : Amount} (ha : 0 < a.val) (hb : 0 < b.val) : AllPositive [a, b] := by
  intro x hx
  rcases List.mem_pair.1 hx with rfl | rfl
  · exact ha
  · exact hb

/-- The product term of two balances in ascending order loses less than two units, if the invariant does not
exceed twice the larger one. -/
theorem cube_lt_foldedProduct_pair {a b : Amount} {d : ℕ} (ha : 0 < a.val) (hb : 0 < b.val)
    (hd : d ≤ 2 * b.val) :
    d ^ 3 < (foldedProduct [a, b] 2 d + 2) * (4 * (a.val * b.val)) := by
  have hlost : d ^ 3 < foldedProduct [a, b] 2 d * (2 ^ 2 * (a.val * (b.val * 1))) +
      a.val * 2 * (d ^ 1 + b.val * 2 * (d ^ 0 + 0)) :=
    lt_foldedProduct_mul_prod_add_foldLoss (List.cons_ne_nil a [b]) (allPositive_pair ha hb) Nat.two_pos d
  have hlast : a.val * 2 * d ≤ a.val * 2 * (2 * b.val) := Nat.mul_le_mul_left _ hd
  linarith

set_option synthInstance.maxSize 256 in
/-- What a pass does for small balances at a small amplification, one pair at a time. -/
theorem step_of_small_pair_le_succ : ∀ b < 16, ∀ a < b + 1, ∀ slope < 8, ∀ s < 10,
    0 < a ∧ 0 < slope ∧ LevelAbove slope (4 * (a * b)) (a + b) s →
      ((slope + 1) * (a + b) + 2 * (s * s / (a * 2) * s / (b * 2))) * s /
        (slope * s + 3 * (s * s / (a * 2) * s / (b * 2))) ≤ s + 1 := by
  decide +kernel

section

variable {slope a b s k total : ℕ}

/-- Four times a product never exceeds the square of the sum. -/
theorem four_mul_mul_le_sq (a b : ℕ) : 4 * (a * b) ≤ (a + b) ^ 2 := by
  rw [← Nat.mul_assoc]
  exact four_mul_le_sq_add a b

/-- If the solution is small and below the sum of the pair, so are its balances. -/
theorem LevelAbove.lt_sixteen (h : LevelAbove slope (4 * (a * b)) (a + b) s) (ha : 0 < a)
    (hlt : s < a + b) (hs : s < 10) : b < 16 := by
  by_contra hlarge
  have hproduct := h.mul_total_lt hlt
  have hcube : (s + 1) ^ 3 ≤ 10 ^ 3 := Nat.pow_le_pow_left hs 3
  have hleast : 4 * (1 * 16) * (1 + 16) ≤ 4 * (a * b) * (a + b) := by
    have hb : 16 ≤ b := by omega
    exact Nat.mul_le_mul (Nat.mul_le_mul_left 4 (Nat.mul_le_mul ha hb)) (Nat.add_le_add ha hb)
  omega

/-- There is a least number with a level above that of the sum; it is two at least and at most the sum. -/
theorem exists_least_levelAbove (slope : ℕ) (hk : 4 ≤ k) (htotal : 2 ≤ total) (hle : k ≤ total ^ 2) :
    ∃ s, LevelAbove slope k total s ∧ 2 ≤ s ∧ s ≤ total ∧ ∀ t, LevelAbove slope k total t → s ≤ t := by
  have hsum : LevelAbove slope k total total := by
    have hcube : total * k ≤ total * total ^ 2 := Nat.mul_le_mul_left total hle
    change (slope + 1) * total * k < slope * (total + 1) * k + (total + 1) ^ 3
    linarith [Nat.zero_le (slope * k), Nat.zero_le (total ^ 2), Nat.zero_le (total * k)]
  have hone : ¬ LevelAbove slope k total 1 := by
    have hlevel : (slope + 1) * 2 * k ≤ (slope + 1) * total * k :=
      Nat.mul_le_mul_right k (Nat.mul_le_mul_left _ htotal)
    intro habove
    linarith [habove.lt]
  have hexists : ∃ s, LevelAbove slope k total s := ⟨total, hsum⟩
  refine ⟨Nat.find hexists, Nat.find_spec hexists, ?_, Nat.find_min' hexists hsum,
    fun t ht => Nat.find_min' hexists ht⟩
  by_contra hsmall
  exact hone ((Nat.find_spec hexists).mono (by omega))

end

/-- For a pair in ascending order, a pass from the last number up to the solution rises by at most a unit. -/
theorem LevelAbove.pair_step_le_succ {slope s z : ℕ} {a b : Amount} (ha : 0 < a.val)
    (hab : a.val ≤ b.val) (h : LevelAbove slope (4 * (a.val * b.val)) (a.val + b.val) s)
    (hslope : 0 < slope) (hs : 2 ≤ s) (hle : s ≤ a.val + b.val)
    (hstep : IsInvariantStep 2 slope ((slope + 1) * (a.val + b.val)) (foldedProduct [a, b] 2 s) s z) :
    z ≤ s + 1 := by
  have hloss := cube_lt_foldedProduct_pair ha (Nat.lt_of_lt_of_le ha hab) (show s ≤ 2 * b.val by omega)
  rcases Nat.eq_or_lt_of_le hle with rfl | hlt
  · exact step_from_total_le hstep hloss hslope (four_mul_mul_le_sq a.val b.val)
  · by_cases hlarge : 10 ≤ s ∨ 8 ≤ slope
    · exact h.step_le_succ hstep hloss hslope hs hlt hlarge
    · obtain ⟨hten, height⟩ := not_or.1 hlarge
      have hb : b.val < 16 := h.lt_sixteen ha hlt (by omega)
      rw [hstep.eq_div]
      exact step_of_small_pair_le_succ b.val hb a.val (by omega) slope (by omega) s (by omega)
        ⟨ha, hslope, h⟩

/-- From `s` up to `top`, passes do not fall below `s`. From two units above `s` and more they leave at most
two thirds of the distance, and less than a unit more; from `s` and its successor they rise by at most
one. -/
structure ContractsTowards (pass : Wide → Checked Wide) (s top : ℕ) : Prop where
  le_pass : ∀ y z, s ≤ y.val → y.val ≤ top → pass y = .ok z → s ≤ z.val
  three_mul_pass_le : ∀ y z, s + 2 ≤ y.val → y.val ≤ top → pass y = .ok z →
    3 * z.val ≤ s + 2 * y.val + 2
  pass_le_succ : ∀ y z, s ≤ y.val → y.val ≤ s + 1 → y.val ≤ top → pass y = .ok z → z.val ≤ y.val + 1

/-- The distance beyond the second unit falls by a third with each pass, and two more passes are enough
once it is gone. -/
theorem ContractsTowards.settleFrom_ne_none {pass : Wide → Checked Wide} {s top m done bound : ℕ}
    {start : Wide} (h : ContractsTowards pass s top) (hstart : s ≤ start.val) (htop : start.val ≤ top)
    (hdistance : (start.val - (s + 2)) * 2 ^ m < 3 ^ m) (hbound : m + 1 < bound) :
    settleFrom pass done bound start ≠ .ok none := by
  refine settleFrom_ne_none_of_rank (P := fun rank y => s ≤ y.val ∧ y.val ≤ top ∧
    (y.val ≤ s + 1 ∨ ∃ m, rank = m + 1 ∧ (y.val - (s + 2)) * 2 ^ m < 3 ^ m)) ?_
    ⟨hstart, htop, .inr ⟨m, rfl, hdistance⟩⟩ hbound
  rintro rank y z ⟨hy, htop, hrank⟩ hpass hfar
  rw [Word.val_distance] at hfar
  have hfloor := h.le_pass y z hy htop hpass
  rcases Nat.lt_or_ge (s + 1) y.val with hlt | hnear
  · obtain ⟨m, rfl, hdistance⟩ := hrank.resolve_left (Nat.not_le.2 hlt)
    have hthird := h.three_mul_pass_le y z hlt htop hpass
    cases m with
    | zero =>
      -- The pass started two units above `s`, and of all it can lead to only `s` is not close to that.
      exact ⟨0, Nat.one_pos, hfloor, by omega, .inl (by omega)⟩
    | succ m =>
      have hshrunk : 3 * (z.val - (s + 2)) ≤ 2 * (y.val - (s + 2)) := by omega
      refine ⟨m + 1, Nat.lt_succ_self _, hfloor, by omega, .inr ⟨m, rfl, ?_⟩⟩
      apply Nat.lt_of_mul_lt_mul_left (a := 3)
      calc 3 * ((z.val - (s + 2)) * 2 ^ m) = 3 * (z.val - (s + 2)) * 2 ^ m := by ring
        _ ≤ 2 * (y.val - (s + 2)) * 2 ^ m := Nat.mul_le_mul_right _ hshrunk
        _ = (y.val - (s + 2)) * 2 ^ (m + 1) := by ring
        _ < 3 ^ (m + 1) := hdistance
        _ = 3 * 3 ^ m := Nat.pow_succ'
  · have hrise := h.pass_le_succ y z hy hnear htop hpass
    omega

section

variable {a b ann : Amount} {annSum : Wide}

/-- The passes for a pair in ascending order contract towards a number up to the sum, as long as they start
from no more than the sum. -/
theorem exists_contractsTowards_pair (ha : 0 < a.val) (hab : a.val ≤ b.val) (hann : 2 ≤ ann.val)
    (hannSum : annSum.val = ann.val * (a.val + b.val)) :
    ∃ s, s ≤ a.val + b.val ∧ ContractsTowards (invariantPass [a, b] ann annSum) s (a.val + b.val) := by
  have hb : 0 < b.val := Nat.lt_of_lt_of_le ha hab
  have hk : 4 ≤ 4 * (a.val * b.val) := Nat.le_mul_of_pos_right 4 (Nat.mul_pos ha hb)
  have hannSum : annSum.val = (ann.val - 1 + 1) * (a.val + b.val) := by
    rw [hannSum, Nat.sub_add_cancel (by omega)]
  obtain ⟨s, hs, htwo, hle, hleast⟩ := exists_least_levelAbove (ann.val - 1) hk (by omega)
    (four_mul_mul_le_sq a.val b.val)
  have hstep (y z : Wide) (hpass : invariantPass [a, b] ann annSum y = .ok z) :
      IsInvariantStep 2 (ann.val - 1) ((ann.val - 1 + 1) * (a.val + b.val)) (foldedProduct [a, b] 2 y.val)
        y.val z.val := hannSum ▸ invariantPass_eq_ok hpass
  have hloss (y : ℕ) (htop : y ≤ a.val + b.val) :=
    cube_lt_foldedProduct_pair ha hb (show y ≤ 2 * b.val by omega)
  refine ⟨s, hle, ⟨fun y z _ htop hpass => ?below, fun y z hfar htop hpass => ?far,
    fun y z hstart hnear htop hpass => ?near⟩⟩
  case below =>
    have hexact : foldedProduct [a, b] 2 y.val * (4 * (a.val * b.val)) ≤ y.val ^ 3 := by
      simpa [Nat.mul_assoc] using foldedProduct_mul_prod_le [a, b] 2 y.val
    apply hleast
    exact (hstep y z hpass).lt_at_succ (by omega) hexact (Nat.mul_le_mul (Nat.le_succ _) htop)
  case far =>
    exact hs.three_mul_step_le (hstep y z hpass) (hloss _ htop) (by omega) htwo hfar htop
  case near =>
    rcases Nat.eq_or_lt_of_le hstart with heq | hlt
    · have hstay := hstep y z hpass
      rw [← heq] at hstay ⊢
      exact hs.pair_step_le_succ ha hab (by omega) htwo hle hstay
    · obtain heq : y.val = s + 1 := by omega
      have hnext := hstep y z hpass
      have hlost := hloss _ htop
      rw [heq] at hnext hlost ⊢
      exact hs.step_from_succ_le hnext hlost htwo (by omega)

/-- The iteration for a pair in ascending order is not given up within the default bound. -/
theorem settle_pair_ne_none {sum : Wide} {bound : ℕ} (ha : 0 < a.val) (hab : a.val ≤ b.val)
    (hann : 2 ≤ ann.val) (hsum : sum.val = a.val + b.val) (hannSum : annSum.val = ann.val * sum.val)
    (hbound : defaultBound ≤ bound) : settle (invariantPass [a, b] ann annSum) bound sum ≠ .ok none := by
  obtain ⟨s, hle, hcontracts⟩ := exists_contractsTowards_pair ha hab hann (hsum ▸ hannSum)
  have hdistance : (sum.val - (s + 2)) * 2 ^ 221 < 3 ^ 221 := by
    have hlast := a.val_lt
    have hlast' := b.val_lt
    calc (sum.val - (s + 2)) * 2 ^ 221 ≤ 2 ^ 129 * 2 ^ 221 := Nat.mul_le_mul_right _ (by omega)
      _ < 3 ^ 221 := by norm_num
  exact hcontracts.settleFrom_ne_none (hsum ▸ hle) hsum.le hdistance
    (Nat.le_trans (by decide) hbound)

end

/-- The invariant of two positive balances in ascending order is never given up within the default bound
or a larger one, whatever the amplification: it is computed, or refused because a number becomes too
large. -/
theorem ordered_pair_settles {a b : Amount} (ha : 0 < a.val) (hab : a.val ≤ b.val) (amp : Amplification)
    {bound : ℕ} (hbound : defaultBound ≤ bound) :
    (∃ d, (invariant [a, b] amp bound).result = .ok d) ∨
      ∃ step, (invariant [a, b] amp bound).result = .error (.overflow step) := by
  have hpos : AllPositive [a, b] := allPositive_pair ha (Nat.lt_of_lt_of_le ha hab)
  have hrefuses : Checked.RefusesOnly (fun cause => ∃ step, cause = .overflow step)
      (invariant [a, b] amp bound).result := by
    refine hpos.refusesOnly_invariant_of_settle (fun step => ⟨step, rfl⟩) (Nat.le_refl 2) amp
      fun ann sum annSum hann hsum hannSum hnone => ?_
    have hcoefficient : 2 ≤ ann.val := hann ▸ two_le_ann (Nat.le_refl 2)
    exact absurd hnone (settle_pair_ne_none ha hab hcoefficient (by simpa using hsum) hannSum hbound)
  cases hresult : (invariant [a, b] amp bound).result with
  | ok d => exact .inl ⟨d, rfl⟩
  | error cause =>
    obtain ⟨step, rfl⟩ := hrefuses cause hresult
    exact .inr ⟨step, rfl⟩

/-- An uneven pair, and one whose first product term is too large. -/
theorem ordered_pair_settles_uneven :
    let amp : Amplification := ⟨1, by decide⟩
    let a : Amount := .lit 3
    let b : Amount := .lit 7021
    let last : Amount := .lit (2 ^ 128 - 1)
    0 < a.val ∧ a.val ≤ b.val ∧ a.val ≤ last.val ∧ defaultBound ≤ 255 ∧
      (invariant [a, b] amp 255).result = .ok (.lit 1031) ∧
      ((∃ d, (invariant [a, b] amp 255).result = .ok d) ∨
        ∃ step, (invariant [a, b] amp 255).result = .error (.overflow step)) ∧
      (invariant [a, last] amp 255).result = .error (.overflow "D: D_P·D") ∧
      ((∃ d, (invariant [a, last] amp 255).result = .ok d) ∨
        ∃ step, (invariant [a, last] amp 255).result = .error (.overflow step)) := by
  intro amp a b last
  have ha : 0 < a.val := by decide
  have hab : a.val ≤ b.val := by decide
  have halast : a.val ≤ last.val := by decide
  have hbound : defaultBound ≤ 255 := by decide
  exact ⟨ha, hab, halast, hbound, by decide +kernel, ordered_pair_settles ha hab amp hbound,
    by decide +kernel, ordered_pair_settles ha halast amp hbound⟩

-- The same pair in descending order.
example : (invariant [.lit 7021, .lit 3] ⟨1, by decide⟩ 255).result =
    .error (.notConverged "compute_d" 255) := by
  decide +kernel

end StablePool.Curve
