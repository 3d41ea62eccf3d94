import StablePool.Word

/-!
# Price scales

A price scale says how many price-scaled units one native unit of an asset stands for, in units of
`10 ^ -18`. Scaled amounts of different assets can be compared on the curve. Both conversions
round down, so a round trip can only lose.
-/

namespace StablePool

attribute [local instance (high)] instPowNat instNatPowNat

/-- The scale at which native and price-scaled units are the same. -/
def base : Amount := ⟨10 ^ (18 : Nat), by decide⟩

/-- The base is ten to the eighteenth. -/
theorem val_base : base.val = 10 ^ (18 : Nat) := rfl

/-- A positive number of price-scaled units for each native unit, times `base`. -/
@[ext] structure PriceScale where
  factor : Amount
  factor_pos : 0 < factor.val

namespace PriceScale

instance : DecidableEq PriceScale := fun p q =>
  decidable_of_iff (p.factor = q.factor) PriceScale.ext_iff.symm

/-- The scale of an asset whose native units are price-scaled units. -/
def one : PriceScale := ⟨base, by decide⟩

instance : Inhabited PriceScale := ⟨one⟩

/-- A price scale from its factor. -/
def ofFactor (factor : Amount) : Checked PriceScale :=
  if h : 0 < factor.val then .ok ⟨factor, h⟩
  else .error (.invalidConfiguration "price scale must be positive")

/-- A factor is taken as it is. -/
theorem ofFactor_eq_ok_iff {factor : Amount} {p : PriceScale} :
    ofFactor factor = .ok p ↔ p.factor = factor := by
  unfold ofFactor
  split
  · simp only [Except.ok.injEq, PriceScale.ext_iff]
    exact eq_comm
  · next h =>
    simp only [reduceCtorEq, false_iff]
    rintro rfl
    exact h p.factor_pos

/-- The scale of an asset with fewer decimals: each native unit stands for `multiplier` units. -/
def ofMultiplier (multiplier : Amount) : Checked PriceScale := do
  let factor ← base.mul multiplier "price scale multiplier"
  ofFactor factor

/-- A native amount in price-scaled units, rounded down. -/
def toScaled (p : PriceScale) (native : Amount) : Checked Amount :=
  Word.mulDiv native p.factor base "price scale to xp"

/-- Scaling multiplies by the factor and divides by the base. -/
theorem toScaled_eq_ok_iff {p : PriceScale} {native scaled : Amount} :
    p.toScaled native = .ok scaled ↔
      scaled.val = native.val * p.factor.val / base.val := by
  simp [toScaled, Word.mulDiv_eq_ok_iff, val_base]

/-- A price-scaled amount in native units, rounded down. -/
def toNative (p : PriceScale) (scaled : Amount) : Checked Amount :=
  Word.mulDiv scaled base p.factor "price scale to native"

/-- The way back multiplies by the base and divides by the factor. -/
theorem toNative_eq_ok_iff {p : PriceScale} {scaled native : Amount} :
    p.toNative scaled = .ok native ↔
      native.val = scaled.val * base.val / p.factor.val := by
  simp [toNative, Word.mulDiv_eq_ok_iff, p.factor_pos]

/-- The written form of a price scale. -/
def text (p : PriceScale) : String := s!"{p.factor}e-18"

end PriceScale

end StablePool
