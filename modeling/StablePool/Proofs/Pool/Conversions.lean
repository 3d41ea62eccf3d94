import Mathlib.Algebra.Group.Nat.Defs
import StablePool.Proofs.Pool.Units

/-!
# Conversions lose but never gain

Scaling an amount and converting it back are each computed by one quotient, rounded down, and are refused
only where the quotient is no amount. What is known of the quotients therefore carries over to the
conversions themselves, with the refusals: what does not exceed a converted amount, and the parts of a sum
that is converted, are never refused, and what was scaled is never refused on its way back.
-/

namespace StablePool.PriceScale

/-- What does not exceed a converted amount is converted as well, to no more. -/
def KeepsOrder (convert : Amount → Checked Amount) : Prop :=
  ∀ a b converted : Amount, a ≤ b → convert b = .ok converted →
    ∃ smaller, convert a = .ok smaller ∧ smaller ≤ converted

/-- The parts of a sum that is converted are converted as well, and give together what the sum gives or
one unit less. -/
def NearlyAdditive (convert : Amount → Checked Amount) : Prop :=
  ∀ a b sum converted : Amount, sum.val = a.val + b.val → convert sum = .ok converted →
    ∃ first second, convert a = .ok first ∧ convert b = .ok second ∧
      first.val + second.val ≤ converted.val ∧ converted.val ≤ first.val + second.val + 1

section

variable {convert : Amount → Checked Amount} {units : Nat → Nat}

/-- A conversion computed by a function on numbers succeeds below every success, if the function keeps the
order. -/
theorem keepsOrder_of_units (heq : ∀ {a c : Amount}, convert a = .ok c ↔ c.val = units a.val)
    (hmono : ∀ {m n : Nat}, m ≤ n → units m ≤ units n) : KeepsOrder convert := by
  intro a b converted hle hconverted
  have hle : units a.val ≤ converted.val := heq.1 hconverted ▸ hmono hle
  exact ⟨⟨units a.val, Nat.lt_of_le_of_lt hle converted.val_lt⟩, heq.2 rfl, hle⟩

/-- A conversion computed by a function on numbers is additive as far as the function is. -/
theorem nearlyAdditive_of_units (heq : ∀ {a c : Amount}, convert a = .ok c ↔ c.val = units a.val)
    (hle : ∀ m n, units m + units n ≤ units (m + n))
    (hsucc : ∀ m n, units (m + n) ≤ units m + units n + 1) : NearlyAdditive convert := by
  intro a b sum converted hsum hconverted
  have hval : converted.val = units (a.val + b.val) := hsum ▸ heq.1 hconverted
  have hparts : units a.val + units b.val ≤ converted.val := hval ▸ hle a.val b.val
  have hfits (n : Nat) (h : n ≤ units a.val + units b.val) : n < 2 ^ 128 :=
    Nat.lt_of_le_of_lt (Nat.le_trans h hparts) converted.val_lt
  exact ⟨⟨units a.val, hfits _ (Nat.le_add_right _ _)⟩, ⟨units b.val, hfits _ (Nat.le_add_left _ _)⟩,
    heq.2 rfl, heq.2 rfl, hparts, hval ▸ hsucc a.val b.val⟩

end

variable (p : PriceScale)

/-- What was scaled is converted back, and never to more. -/
theorem exists_toNative_of_toScaled {native scaled : Amount} (h : p.toScaled native = .ok scaled) :
    ∃ back, p.toNative scaled = .ok back ∧
      back.val = p.nativeUnits (p.scaledUnits native.val) ∧ back ≤ native := by
  have hscaled : scaled.val = p.scaledUnits native.val := toScaled_eq_ok_iff.1 h
  obtain ⟨back, hback, hval⟩ := exists_toNative_eq_ok_of_le (Nat.le_of_eq hscaled)
  rw [hscaled] at hval
  exact ⟨back, hback, hval, Word.le_iff.2 (hval ▸ p.nativeUnits_scaledUnits_le native.val)⟩

/-- Conversions lose but never gain. What was scaled is converted back without a refusal, to at most what it
was, and to less only by what a native unit and a price-scaled unit stand for together; a scale that is a
multiple of the base loses nothing. Both conversions keep the order and are additive up to one unit. -/
theorem conversions_never_gain :
    (∀ native scaled : Amount, p.toScaled native = .ok scaled →
      ∃ back, p.toNative scaled = .ok back ∧ back ≤ native ∧
        (native.val - back.val) * p.factor.val < base.val + p.factor.val ∧
        ∀ m, p.factor.val = base.val * m → back = native) ∧
    KeepsOrder p.toScaled ∧ KeepsOrder p.toNative ∧
    NearlyAdditive p.toScaled ∧ NearlyAdditive p.toNative := by
  refine ⟨fun native scaled hscaled => ?_, keepsOrder_of_units toScaled_eq_ok_iff p.scaledUnits_mono,
    keepsOrder_of_units toNative_eq_ok_iff p.nativeUnits_mono,
    nearlyAdditive_of_units toScaled_eq_ok_iff p.scaledUnits_add_le p.scaledUnits_add_le_succ,
    nearlyAdditive_of_units toNative_eq_ok_iff p.nativeUnits_add_le p.nativeUnits_add_le_succ⟩
  obtain ⟨back, hback, hval, hle⟩ := p.exists_toNative_of_toScaled hscaled
  refine ⟨back, hback, hle, hval ▸ p.sub_nativeUnits_scaledUnits_lt native.val, fun m hm => ?_⟩
  have hwhole : p.IsWhole := ⟨m, hm⟩
  exact Word.ext (hval.trans (hwhole.nativeUnits_scaledUnits native.val))

/-- At a scale below the base a round trip loses one of three native units, and scaling one and two of them
apart gives a price-scaled unit less. At the scale of an asset with six decimals nothing is lost. -/
theorem conversions_never_gain_seven_tenths :
    let light : PriceScale := ⟨.lit (7 * 10 ^ 17), by decide⟩
    let six : PriceScale := ⟨.lit (10 ^ 30), by decide⟩
    let three : Amount := .lit 3
    light.toScaled three = .ok (.lit 2) ∧
      (∃ back, light.toNative (.lit 2) = .ok back ∧ back = .lit 2 ∧ back ≤ three) ∧
      (∃ first second, light.toScaled 1 = .ok first ∧ light.toScaled (.lit 2) = .ok second ∧
        2 ≤ first.val + second.val + 1) ∧
      (∃ smaller, light.toScaled (.lit 2) = .ok smaller ∧ smaller ≤ .lit 2) ∧
      ∃ scaled, six.toScaled three = .ok scaled ∧ six.toNative scaled = .ok three := by
  intro light six three
  have hscaled : light.toScaled three = .ok (.lit 2) := toScaled_eq_ok_iff.2 (by decide)
  have hsix : six.toScaled three = .ok (.lit (3 * 10 ^ 12)) := toScaled_eq_ok_iff.2 (by decide)
  obtain ⟨htrip, horder, -, hadditive, -⟩ := light.conversions_never_gain
  obtain ⟨back, hback, hle, -, -⟩ := htrip three (.lit 2) hscaled
  obtain ⟨first, second, hfirst, hsecond, -, hsucc⟩ :=
    hadditive 1 (.lit 2) three (.lit 2) (by decide) hscaled
  obtain ⟨whole, hwhole, -, -, heq⟩ := six.conversions_never_gain.1 three _ hsix
  have hthree : whole = three := heq (10 ^ 12) (by decide)
  refine ⟨hscaled, ⟨back, hback, Word.ext ?_, hle⟩, ⟨first, second, hfirst, hsecond, hsucc⟩,
    horder (.lit 2) three (.lit 2) (by decide) hscaled, _, hsix, hthree ▸ hwhole⟩
  exact (toNative_eq_ok_iff.1 hback).trans (by decide)

end StablePool.PriceScale
