import Mathlib.Algebra.Group.Nat.Defs
import StablePool.Amplification
import StablePool.Proofs.Refusal

/-!
# Amplifications are scaled up to the limit of an amount

A plain coefficient is multiplied by the power `n ^ (n - 1)` of the number of assets. The exponent, the
power and the product are checked in turn. No check is stricter than the last: a positive coefficient
whose product is an amount has an exponent below 128 and a power that is an amount. So scaling succeeds
exactly as far as amounts reach, and a positive coefficient is refused for overflow alone.

Whether the solvers can be used with a given amplification is not stated here.
-/

namespace StablePool

open Checked (RefusesOnly)

/-- A power of a base above one has an exponent below the width of the word that it fits. -/
theorem Word.exponent_lt_of_pow_lt {w base exponent : ℕ} (hbase : 2 ≤ base)
    (h : base ^ exponent < 2 ^ w) : exponent < w :=
  Nat.lt_of_not_le fun hle => Nat.not_lt.2 (two_pow_le_pow ⟨hbase, hle⟩) h

/-- A power is refused for overflow alone. -/
theorem Word.refusesOnly_power {w base exponent : ℕ} {kind : Error → Prop} {step : String}
    (h : kind (.overflow step)) : RefusesOnly kind (power base exponent step : Checked (Word w)) := by
  intro cause hcause
  exact (power_eq_error_iff.1 hcause).2 ▸ h

namespace Amplification

variable {actual : Amount} {count : ℕ}

/-- A part of a product with a positive number fits if the product does. -/
theorem pow_lt_of_mul_pow_lt (hpos : 1 ≤ actual.val)
    (h : actual.val * count ^ (count - 1) < 2 ^ 128) : count ^ (count - 1) < 2 ^ 128 :=
  Nat.lt_of_le_of_lt (Nat.le_mul_of_pos_left _ hpos) h

/-- Scaling yields the product, whenever there are two assets and the product is a positive amount. -/
theorem ofActual_eq_ok_iff {a : Amplification} :
    ofActual actual count = .ok a ↔
      2 ≤ count ∧ a.coefficient.val = actual.val * count ^ (count - 1) := by
  simp only [ofActual, Checked.bind_eq_ok_iff, ensure_eq_ok_iff, exists_const,
    Word.power_eq_ok_iff, Word.mul_eq_ok_iff, ofScaled_eq_ok_iff]
  constructor
  · rintro ⟨hcount, -, factor, hfactor, scaled, hscaled, rfl⟩
    exact ⟨hcount, hfactor ▸ hscaled⟩
  · rintro ⟨hcount, hscaled⟩
    have hpos : 1 ≤ actual.val := Nat.pos_of_mul_pos_right (hscaled ▸ a.coefficient_pos)
    have hpow := pow_lt_of_mul_pow_lt hpos (hscaled ▸ a.coefficient.val_lt)
    have hexponent := Word.exponent_lt_of_pow_lt hcount hpow
    exact ⟨hcount, Nat.lt_trans hexponent (by decide), ⟨_, hpow⟩, rfl, a.coefficient, hscaled, rfl⟩

/-- With two assets and a positive coefficient, every check on the way is one for overflow. -/
theorem refusesOnly_ofActual (hcount : 2 ≤ count) (hpos : 1 ≤ actual.val) :
    RefusesOnly Error.IsOverflow (ofActual actual count) := by
  refine RefusesOnly.bind (Checked.refusesOnly_ensure_of hcount) fun _ _ => ?_
  refine RefusesOnly.bind (Checked.refusesOnly_ensure trivial) fun _ _ => ?_
  refine RefusesOnly.bind (Word.refusesOnly_power trivial) fun factor hfactor => ?_
  refine RefusesOnly.bind (Word.refusesOnly_mul trivial) fun scaled hscaled => ?_
  -- The check for zero comes last, and a product of positive numbers passes it.
  intro cause hcause
  have hzero : scaled.val = 0 := (ofScaled_eq_error_iff.1 hcause).1
  rw [Word.mul_eq_ok_iff.1 hscaled, Word.power_eq_ok_iff.1 hfactor] at hzero
  have hfactor : 0 < count ^ (count - 1) := Nat.pow_pos (Nat.lt_of_lt_of_le Nat.two_pos hcount)
  exact absurd hzero (Nat.ne_of_gt (Nat.mul_pos hpos hfactor))

/-- The form that the solvers use has one more factor. -/
theorem mul_coefficient_of_ofActual {a : Amplification} (h : ofActual actual count = .ok a) :
    count * a.coefficient.val = actual.val * count ^ count := by
  obtain ⟨hcount, hscaled⟩ := ofActual_eq_ok_iff.1 h
  calc count * a.coefficient.val = actual.val * (count ^ (count - 1) * count) := by
        rw [hscaled, Nat.mul_comm, Nat.mul_assoc]
    _ = actual.val * count ^ count := by
        rw [Nat.pow_pred_mul (Nat.lt_of_lt_of_le Nat.two_pos hcount)]

/-- Scaling is exact up to the limit of an amount. A coefficient is scaled exactly if there are two assets,
it is positive and the product with the power is an amount; the product is then what is held. The form that
the solvers use has one factor more and is refused for overflow exactly if it is no amount. Of a positive
coefficient on two assets or more, only what overflows is refused. -/
theorem scaling_is_exact (actual : Amount) (count : ℕ) :
    ((∃ a, ofActual actual count = .ok a) ↔
      2 ≤ count ∧ 1 ≤ actual.val ∧ actual.val * count ^ (count - 1) < 2 ^ 128) ∧
    (∀ a, ofActual actual count = .ok a →
      a.coefficient.val = actual.val * count ^ (count - 1) ∧
      (actual.val * count ^ count < 2 ^ 128 →
        ∃ c, a.ann count = .ok c ∧ c.val = actual.val * count ^ count) ∧
      (2 ^ 128 ≤ actual.val * count ^ count → a.ann count = .error (.overflow "A * n"))) ∧
    (2 ≤ count → 1 ≤ actual.val → ∀ cause, ofActual actual count = .error cause →
      ∃ step, cause = .overflow step) := by
  refine ⟨⟨?_, ?_⟩, fun a ha => ⟨?_, fun hfits => ?_, fun hlarge => ?_⟩, fun hcount hpos cause h => ?_⟩
  · rintro ⟨a, ha⟩
    obtain ⟨hcount, hscaled⟩ := ofActual_eq_ok_iff.1 ha
    exact ⟨hcount, Nat.pos_of_mul_pos_right (hscaled ▸ a.coefficient_pos),
      hscaled ▸ a.coefficient.val_lt⟩
  · rintro ⟨hcount, hpos, hfits⟩
    have hpow : 0 < count ^ (count - 1) := Nat.pow_pos (Nat.lt_of_lt_of_le Nat.two_pos hcount)
    exact ⟨⟨⟨_, hfits⟩, Nat.mul_pos hpos hpow⟩, ofActual_eq_ok_iff.2 ⟨hcount, rfl⟩⟩
  · exact (ofActual_eq_ok_iff.1 ha).2
  · exact ⟨⟨_, hfits⟩, ann_eq_ok_iff.2 (mul_coefficient_of_ofActual ha).symm, rfl⟩
  · exact ann_eq_error_iff.2 ⟨mul_coefficient_of_ofActual ha ▸ hlarge, rfl⟩
  · exact (refusesOnly_ofActual hcount hpos cause h).exists_eq

/-- The largest number of assets for which the power is an amount: a coefficient of 20 can be scaled, but not
be used by the solvers, and one of 21 cannot be scaled. With one asset more, no coefficient can. -/
theorem scaling_is_exact_twenty_seven_assets :
    let scaled : Amount := .lit (20 * 27 ^ 26)
    ofActual (.lit 20) 27 = .ok ⟨scaled, by decide⟩ ∧
      (⟨scaled, by decide⟩ : Amplification).ann 27 = .error (.overflow "A * n") ∧
      (∃ step, ofActual (.lit 21) 27 = .error (.overflow step)) ∧
      ¬ ∃ a, ofActual 1 28 = .ok a := by
  intro scaled
  have hscaled : ofActual (.lit 20) 27 = .ok ⟨scaled, by decide⟩ :=
    ofActual_eq_ok_iff.2 ⟨by decide, by decide⟩
  obtain ⟨-, hann, -⟩ := scaling_is_exact (.lit 20) 27
  obtain ⟨hsome, -, honly⟩ := scaling_is_exact (.lit 21) 27
  refine ⟨hscaled, (hann _ hscaled).2.2 (by decide), ?_, fun hlast => ?_⟩
  · cases hresult : ofActual (.lit 21) 27 with
    | ok a =>
      obtain ⟨-, -, hfits⟩ := hsome.1 ⟨a, hresult⟩
      exact absurd hfits (by decide)
    | error cause =>
      obtain ⟨step, rfl⟩ := honly (by decide) (by decide) cause hresult
      exact ⟨step, rfl⟩
  · obtain ⟨-, -, hfits⟩ := (scaling_is_exact 1 28).1.1 hlast
    exact absurd hfits (by decide)

end Amplification

end StablePool
