import StablePool.PriceScale

/-!
# Native and price-scaled units

Both conversions of a price scale are quotients rounded down. They keep the order, and the parts of
a sum never convert to more than the sum does. A round trip through price-scaled units never gains.

A scale is whole if a native unit stands for a whole number of price-scaled units. Scaling is then a
product, and a whole number of native units that is parted with one price-scaled unit left out
converts back to exactly one native unit less.
-/

namespace StablePool.PriceScale

/-- Quotients of two parts, rounded down, fall short of the quotient of their sum by at most one. -/
theorem add_mul_div_le_succ (a b m : Nat) {d : Nat} (hd : 0 < d) :
    (a + b) * m / d ≤ a * m / d + b * m / d + 1 := by
  have ha : a * m < d * (a * m / d + 1) := Nat.lt_mul_div_succ _ hd
  have hb : b * m < d * (b * m / d + 1) := Nat.lt_mul_div_succ _ hd
  refine Nat.le_of_lt_succ (Nat.div_lt_of_lt_mul ?_)
  calc (a + b) * m = a * m + b * m := Nat.add_mul _ _ _
    _ < d * (a * m / d + 1) + d * (b * m / d + 1) := Nat.add_lt_add ha hb
    _ = d * (a * m / d + b * m / d + 1 + 1) := by
        rw [← Nat.mul_add]
        congr 1
        omega

/-- A quotient converted back by the inverse one loses less than one unit of each. -/
theorem sub_round_trip_mul_lt (x : Nat) {m d : Nat} (hm : 0 < m) (hd : 0 < d) :
    (x - x * m / d * d / m) * m < d + m := by
  have hthere : x * m < d * (x * m / d + 1) := Nat.lt_mul_div_succ _ hd
  have hback : x * m / d * d < m * (x * m / d * d / m + 1) := Nat.lt_mul_div_succ _ hm
  rw [Nat.mul_succ, Nat.mul_comm d] at hthere
  rw [Nat.mul_succ, Nat.mul_comm m] at hback
  rw [Nat.sub_mul]
  omega

/-- The price-scaled units of so many native ones. -/
def scaledUnits (p : PriceScale) (native : Nat) : Nat := native * p.factor.val / base.val

/-- The native units of so many price-scaled ones. -/
def nativeUnits (p : PriceScale) (scaled : Nat) : Nat := scaled * base.val / p.factor.val

/-- Nothing stands for nothing. -/
@[simp] theorem scaledUnits_zero (p : PriceScale) : p.scaledUnits 0 = 0 := by
  rw [scaledUnits, Nat.zero_mul, Nat.zero_div]

/-- Nothing converts back to nothing. -/
@[simp] theorem nativeUnits_zero (p : PriceScale) : p.nativeUnits 0 = 0 := by
  rw [nativeUnits, Nat.zero_mul, Nat.zero_div]

/-- What stands for something is something. -/
theorem pos_of_scaledUnits_pos {p : PriceScale} {native : Nat} (h : 0 < p.scaledUnits native) :
    0 < native := by
  refine Nat.pos_of_ne_zero fun hzero => ?_
  rw [hzero, scaledUnits_zero] at h
  exact Nat.lt_irrefl 0 h

/-- More price-scaled units are never fewer native ones. -/
theorem nativeUnits_mono (p : PriceScale) {a b : Nat} (h : a ≤ b) :
    p.nativeUnits a ≤ p.nativeUnits b :=
  Nat.div_le_div_right (Nat.mul_le_mul_right _ h)

/-- More native units are never fewer price-scaled ones. -/
theorem scaledUnits_mono (p : PriceScale) {a b : Nat} (h : a ≤ b) :
    p.scaledUnits a ≤ p.scaledUnits b :=
  Nat.div_le_div_right (Nat.mul_le_mul_right _ h)

/-- Native units stand for something exactly if they reach the base. -/
theorem scaledUnits_pos_iff (p : PriceScale) {native : Nat} :
    0 < p.scaledUnits native ↔ base.val ≤ native * p.factor.val := by
  rw [scaledUnits, Nat.div_pos_iff]
  exact and_iff_right (by decide)

/-- Where a native unit stands for at least one price-scaled unit, every one does. -/
theorem scaledUnits_pos_of_base_le {p : PriceScale} {native : Nat} (hbase : base ≤ p.factor)
    (h : 0 < native) : 0 < p.scaledUnits native :=
  p.scaledUnits_pos_iff.2 (Nat.le_trans hbase (Nat.le_mul_of_pos_left _ h))

/-- What is left after fewer price-scaled units than there were are paid out still stands for
something. -/
theorem scaledUnits_sub_nativeUnits_pos (p : PriceScale) {paid native : Nat}
    (h : paid < p.scaledUnits native) : 0 < p.scaledUnits (native - p.nativeUnits paid) := by
  have hpaid : p.nativeUnits paid * p.factor.val ≤ paid * base.val := Nat.div_mul_le_self _ _
  have hheld : p.scaledUnits native * base.val ≤ native * p.factor.val := Nat.div_mul_le_self _ _
  have hsucc : (paid + 1) * base.val ≤ p.scaledUnits native * base.val := Nat.mul_le_mul_right _ h
  rw [scaledUnits_pos_iff, Nat.sub_mul]
  rw [Nat.succ_mul] at hsucc
  omega

/-- Two amounts that stand for something still do after a round trip of their sum. -/
theorem scaledUnits_nativeUnits_add_pos (p : PriceScale) {held paid : Nat}
    (hheld : 0 < p.scaledUnits held) (hpaid : 0 < p.scaledUnits paid) :
    0 < p.scaledUnits (p.nativeUnits (p.scaledUnits held + p.scaledUnits paid)) := by
  have hback : (p.scaledUnits held + p.scaledUnits paid) * base.val <
      (p.nativeUnits (p.scaledUnits held + p.scaledUnits paid) + 1) * p.factor.val := by
    rw [Nat.mul_comm (_ + 1)]
    exact Nat.lt_mul_div_succ _ p.factor_pos
  have htwo : 2 * base.val ≤ (p.scaledUnits held + p.scaledUnits paid) * base.val :=
    Nat.mul_le_mul_right _ (by omega)
  rw [Nat.add_mul _ 1, Nat.one_mul] at hback
  rw [scaledUnits_pos_iff]
  rcases Nat.lt_or_ge p.factor.val base.val with hsmall | hlarge
  · omega
  · -- A native unit stands for more than the rounding of a round trip can take.
    have hunit : p.factor.val < (p.scaledUnits held + p.scaledUnits paid) * base.val := by
      calc p.factor.val ≤ held * p.factor.val :=
            Nat.le_mul_of_pos_left _ (pos_of_scaledUnits_pos hheld)
        _ < base.val * (held * p.factor.val / base.val + 1) := Nat.lt_mul_div_succ _ (by decide)
        _ ≤ (p.scaledUnits held + p.scaledUnits paid) * base.val := by
            rw [Nat.mul_comm]
            exact Nat.mul_le_mul_right _ (Nat.add_le_add_left hpaid _)
    have hsome : 0 < p.nativeUnits (p.scaledUnits held + p.scaledUnits paid) :=
      Nat.div_pos (Nat.le_of_lt hunit) p.factor_pos
    exact Nat.le_trans hlarge (Nat.le_mul_of_pos_left _ hsome)

/-- If the part that is left of the price-scaled units reaches one, what is left of the native units
stands for something. -/
theorem scaledUnits_pos_of_part (p : PriceScale) {native rest left whole : Nat} (hwhole : 0 < whole)
    (hrest : native * left ≤ rest * whole) (hunit : whole ≤ p.scaledUnits native * left) :
    0 < p.scaledUnits rest := by
  rw [scaledUnits_pos_iff]
  refine Nat.le_of_mul_le_mul_left ?_ hwhole
  calc whole * base.val ≤ p.scaledUnits native * left * base.val := Nat.mul_le_mul_right _ hunit
    _ = p.scaledUnits native * base.val * left := Nat.mul_right_comm _ _ _
    _ ≤ native * p.factor.val * left := Nat.mul_le_mul_right _ (Nat.div_mul_le_self _ _)
    _ = native * left * p.factor.val := Nat.mul_right_comm _ _ _
    _ ≤ rest * whole * p.factor.val := Nat.mul_le_mul_right _ hrest
    _ = whole * (rest * p.factor.val) := by rw [Nat.mul_comm rest, Nat.mul_assoc]

/-- Where a native unit stands for at least one price-scaled unit, a round trip leaves something of
what a native unit stands for, rounded up. -/
theorem scaledUnits_nativeUnits_pos_iff_of_base_le {p : PriceScale} {scaled : Nat}
    (hfine : base.val ≤ p.factor.val) :
    0 < p.scaledUnits (p.nativeUnits scaled) ↔
      (p.factor.val + base.val - 1) / base.val ≤ scaled := by
  have hone : 0 < p.scaledUnits (p.nativeUnits scaled) ↔ 0 < p.nativeUnits scaled :=
    ⟨pos_of_scaledUnits_pos, scaledUnits_pos_of_base_le hfine⟩
  have hbase : 0 < base.val := by decide
  have hpos := p.factor_pos
  rw [hone, nativeUnits, Nat.div_pos_iff, Nat.div_le_iff_le_mul_add_pred hbase, Nat.mul_comm base.val]
  omega

/-- Where a price-scaled unit is a whole number of native units, a round trip leaves something of
every one. -/
theorem scaledUnits_nativeUnits_pos_iff_of_dvd {p : PriceScale} {scaled : Nat}
    (hdvd : p.factor.val ∣ base.val) : 0 < p.scaledUnits (p.nativeUnits scaled) ↔ 1 ≤ scaled := by
  rw [scaledUnits_pos_iff, nativeUnits,
    Nat.div_mul_cancel (Nat.dvd_mul_left_of_dvd hdvd scaled)]
  constructor
  · intro hreach
    exact Nat.pos_of_mul_pos_right (Nat.lt_of_lt_of_le (by decide) hreach)
  · exact Nat.le_mul_of_pos_left _

/-- Where a price-scaled unit is more than a native one and no whole number of them, a round trip takes
a single one, and leaves something of two. -/
theorem scaledUnits_nativeUnits_pos_iff_of_not_dvd {p : PriceScale} {scaled : Nat}
    (hcoarse : p.factor.val < base.val) (hdvd : ¬ p.factor.val ∣ base.val) :
    0 < p.scaledUnits (p.nativeUnits scaled) ↔ 2 ≤ scaled := by
  rw [scaledUnits_pos_iff, nativeUnits]
  constructor
  · intro hreach
    refine Nat.le_of_not_lt fun hfew => ?_
    obtain rfl | rfl : scaled = 0 ∨ scaled = 1 := by omega
    · rw [Nat.zero_mul, Nat.zero_div, Nat.zero_mul] at hreach
      exact absurd hreach (by decide)
    · rw [Nat.one_mul] at hreach
      have hwhole := Nat.le_antisymm (Nat.div_mul_le_self _ _) hreach
      exact hdvd ⟨_, (Nat.mul_comm _ _ ▸ hwhole).symm⟩
  · intro htwo
    have hbase : 2 * base.val ≤ scaled * base.val := Nat.mul_le_mul_right _ htwo
    have hback : scaled * base.val < p.factor.val * (scaled * base.val / p.factor.val + 1) :=
      Nat.lt_mul_div_succ _ p.factor_pos
    rw [Nat.mul_succ, Nat.mul_comm p.factor.val] at hback
    omega

/-- The least number of price-scaled units of which a round trip through native units leaves
something. -/
def grain (p : PriceScale) : Nat :=
  if base.val ≤ p.factor.val then (p.factor.val + base.val - 1) / base.val
  else if p.factor.val ∣ base.val then 1
  else 2

/-- A round trip leaves something exactly of what reaches the grain. -/
theorem scaledUnits_nativeUnits_pos_iff (p : PriceScale) {scaled : Nat} :
    0 < p.scaledUnits (p.nativeUnits scaled) ↔ p.grain ≤ scaled := by
  unfold grain
  split
  · next hfine => exact scaledUnits_nativeUnits_pos_iff_of_base_le hfine
  · next hcoarse =>
    split
    · next hdvd => exact scaledUnits_nativeUnits_pos_iff_of_dvd hdvd
    · next hdvd => exact scaledUnits_nativeUnits_pos_iff_of_not_dvd (Nat.lt_of_not_le hcoarse) hdvd

/-- Scaling two amounts apart never gives more than scaling their sum. -/
theorem scaledUnits_add_le (p : PriceScale) (a b : Nat) :
    p.scaledUnits a + p.scaledUnits b ≤ p.scaledUnits (a + b) := by
  unfold scaledUnits
  rw [Nat.add_mul]
  exact Nat.div_add_div_le_add_div

/-- Converting two amounts back apart never gives more than converting their sum. -/
theorem nativeUnits_add_le (p : PriceScale) (a b : Nat) :
    p.nativeUnits a + p.nativeUnits b ≤ p.nativeUnits (a + b) := by
  unfold nativeUnits
  rw [Nat.add_mul]
  exact Nat.div_add_div_le_add_div

/-- Scaling two amounts apart gives at most one price-scaled unit less than scaling their sum. -/
theorem scaledUnits_add_le_succ (p : PriceScale) (a b : Nat) :
    p.scaledUnits (a + b) ≤ p.scaledUnits a + p.scaledUnits b + 1 :=
  add_mul_div_le_succ a b _ (by decide)

/-- Converting two amounts back apart gives at most one native unit less than converting their sum. -/
theorem nativeUnits_add_le_succ (p : PriceScale) (a b : Nat) :
    p.nativeUnits (a + b) ≤ p.nativeUnits a + p.nativeUnits b + 1 :=
  add_mul_div_le_succ a b _ p.factor_pos

/-- The native units that a price-scaled unit stands for, rounded up. -/
def nativePerUnit (p : PriceScale) : Nat := (base.val + p.factor.val - 1) / p.factor.val

/-- One price-scaled unit more converts to no more native units than it stands for, rounded up. -/
theorem nativeUnits_succ_le (p : PriceScale) (scaled : Nat) :
    p.nativeUnits (scaled + 1) ≤ p.nativeUnits scaled + p.nativePerUnit := by
  have hquotient : base.val + p.factor.val - 1 < p.factor.val * (p.nativePerUnit + 1) :=
    Nat.lt_mul_div_succ _ p.factor_pos
  have hunit : base.val ≤ p.factor.val * p.nativePerUnit := by
    have hpos := p.factor_pos
    rw [Nat.mul_succ] at hquotient
    omega
  calc p.nativeUnits (scaled + 1) = (scaled * base.val + base.val) / p.factor.val := by
        rw [nativeUnits, Nat.succ_mul]
    _ ≤ (scaled * base.val + p.factor.val * p.nativePerUnit) / p.factor.val :=
        Nat.div_le_div_right (Nat.add_le_add_left hunit _)
    _ = p.nativeUnits scaled + p.nativePerUnit := Nat.add_mul_div_left _ _ p.factor_pos

/-- Where a native unit stands for at least one price-scaled unit, the latter stands for at most one
native unit. -/
theorem nativePerUnit_le_one {p : PriceScale} (hbase : base ≤ p.factor) : p.nativePerUnit ≤ 1 := by
  have hpos := p.factor_pos
  have hfactor : base.val ≤ p.factor.val := hbase
  exact Nat.le_of_lt_succ (Nat.div_lt_of_lt_mul (by omega))

/-- A round trip never gains. -/
theorem nativeUnits_scaledUnits_le (p : PriceScale) (native : Nat) :
    p.nativeUnits (p.scaledUnits native) ≤ native := by
  apply Nat.div_le_of_le_mul
  rw [Nat.mul_comm p.factor.val]
  exact Nat.div_mul_le_self _ _

/-- What does not exceed the price-scaled units of an amount is converted back without a refusal. -/
theorem exists_toNative_eq_ok_of_le {p : PriceScale} {scaled native : Amount}
    (h : scaled.val ≤ p.scaledUnits native.val) :
    ∃ converted, p.toNative scaled = .ok converted ∧ converted.val = p.nativeUnits scaled.val := by
  have hle : p.nativeUnits scaled.val ≤ native.val :=
    Nat.le_trans (p.nativeUnits_mono h) (p.nativeUnits_scaledUnits_le native.val)
  exact ⟨⟨p.nativeUnits scaled.val, Nat.lt_of_le_of_lt hle native.val_lt⟩,
    toNative_eq_ok_iff.2 rfl, rfl⟩

/-- A round trip the other way never gains either. -/
theorem scaledUnits_nativeUnits_le (p : PriceScale) (scaled : Nat) :
    p.scaledUnits (p.nativeUnits scaled) ≤ scaled := by
  apply Nat.div_le_of_le_mul
  rw [Nat.mul_comm base.val]
  exact Nat.div_mul_le_self _ _

/-- A round trip loses less than what a native unit and a price-scaled unit stand for. -/
theorem sub_nativeUnits_scaledUnits_lt (p : PriceScale) (native : Nat) :
    (native - p.nativeUnits (p.scaledUnits native)) * p.factor.val < base.val + p.factor.val :=
  sub_round_trip_mul_lt native p.factor_pos (by decide)

/-- A round trip the other way loses less than what a native unit stands for and a price-scaled unit. -/
theorem sub_scaledUnits_nativeUnits_lt (p : PriceScale) (scaled : Nat) :
    (scaled - p.scaledUnits (p.nativeUnits scaled)) * base.val < p.factor.val + base.val :=
  sub_round_trip_mul_lt scaled (by decide) p.factor_pos

/-- A round trip the other way loses nothing of a whole number of native units. -/
theorem scaledUnits_nativeUnits_of_dvd {p : PriceScale} {scaled : Nat}
    (h : p.factor.val ∣ scaled * base.val) : p.scaledUnits (p.nativeUnits scaled) = scaled := by
  rw [scaledUnits, nativeUnits, Nat.div_mul_cancel h]
  exact Nat.mul_div_cancel _ (by decide)

/-- The scale one converts nothing. -/
@[simp] theorem scaledUnits_one (native : Nat) : one.scaledUnits native = native :=
  Nat.mul_div_cancel native (by decide)

/-- The scale one converts nothing back. -/
@[simp] theorem nativeUnits_one (scaled : Nat) : one.nativeUnits scaled = scaled :=
  Nat.mul_div_cancel scaled (by decide)

/-- A native unit stands for a whole number of price-scaled units. -/
def IsWhole (p : PriceScale) : Prop := base.val ∣ p.factor.val

instance (p : PriceScale) : Decidable p.IsWhole :=
  inferInstanceAs (Decidable (base.val ∣ p.factor.val))

/-- The price-scaled units that a native unit stands for, rounded down. -/
def unitsPerNative (p : PriceScale) : Nat := p.factor.val / base.val

/-- The factor of a whole scale is a multiple of the base. -/
theorem IsWhole.factor_eq {p : PriceScale} (h : p.IsWhole) :
    p.factor.val = base.val * p.unitsPerNative :=
  (Nat.mul_div_cancel' h).symm

/-- A native unit of a whole scale stands for something. -/
theorem IsWhole.unitsPerNative_pos {p : PriceScale} (h : p.IsWhole) : 0 < p.unitsPerNative := by
  apply Nat.pos_of_ne_zero
  intro hzero
  have hfactor := h.factor_eq
  rw [hzero, Nat.mul_zero] at hfactor
  exact absurd hfactor (Nat.ne_of_gt p.factor_pos)

/-- A whole scale scales by a product. -/
theorem IsWhole.scaledUnits_eq {p : PriceScale} (h : p.IsWhole) (native : Nat) :
    p.scaledUnits native = native * p.unitsPerNative := by
  rw [scaledUnits, h.factor_eq, Nat.mul_left_comm]
  exact Nat.mul_div_cancel_left _ (by decide)

/-- The way back of a whole scale is one quotient. -/
theorem IsWhole.nativeUnits_eq {p : PriceScale} (h : p.IsWhole) (scaled : Nat) :
    p.nativeUnits scaled = scaled / p.unitsPerNative := by
  rw [nativeUnits, h.factor_eq, Nat.mul_comm scaled]
  exact Nat.mul_div_mul_left _ _ (by decide)

/-- The scale one is whole. -/
theorem isWhole_one : one.IsWhole := Nat.dvd_refl _

/-- A native unit of the scale one is a price-scaled unit. -/
@[simp] theorem unitsPerNative_one : one.unitsPerNative = 1 := Nat.div_self (by decide)

/-- A whole scale scales an amount to the product, if that is an amount. -/
theorem IsWhole.toScaled_eq_ok_iff {p : PriceScale} (h : p.IsWhole) {native scaled : Amount} :
    p.toScaled native = .ok scaled ↔ scaled.val = native.val * p.unitsPerNative := by
  rw [PriceScale.toScaled_eq_ok_iff, ← h.scaledUnits_eq, scaledUnits]

/-- The way back of a whole scale is never refused. -/
theorem IsWhole.exists_toNative_eq_ok {p : PriceScale} (h : p.IsWhole) (scaled : Amount) :
    ∃ native, p.toNative scaled = .ok native ∧ native.val = scaled.val / p.unitsPerNative := by
  have hlt : scaled.val / p.unitsPerNative < 2 ^ 128 :=
    Nat.lt_of_le_of_lt (Nat.div_le_self _ _) scaled.val_lt
  refine ⟨⟨scaled.val / p.unitsPerNative, hlt⟩, toNative_eq_ok_iff.2 ?_, rfl⟩
  exact (h.nativeUnits_eq scaled.val).symm

/-- A round trip through a whole scale loses nothing. -/
theorem IsWhole.nativeUnits_scaledUnits {p : PriceScale} (h : p.IsWhole) (native : Nat) :
    p.nativeUnits (p.scaledUnits native) = native := by
  rw [h.nativeUnits_eq, h.scaledUnits_eq, Nat.mul_div_cancel _ h.unitsPerNative_pos]

/-- Of a whole number of native units, parted with one price-scaled unit left out, exactly one
native unit is lost: the two remainders always add up to one less than a native unit. -/
theorem IsWhole.nativeUnits_add_succ {p : PriceScale} (h : p.IsWhole) {a b native : Nat}
    (hparts : a + b + 1 = p.scaledUnits native) :
    p.nativeUnits a + p.nativeUnits b + 1 = native := by
  rw [h.scaledUnits_eq, Nat.mul_comm] at hparts
  have hlt : b < p.unitsPerNative * native := by omega
  have ha : a = p.unitsPerNative * native - (b + 1) := by omega
  have hb : b / p.unitsPerNative < native := Nat.div_lt_of_lt_mul hlt
  rw [h.nativeUnits_eq, h.nativeUnits_eq, ha, Nat.mul_sub_div _ _ _ hlt]
  omega

end StablePool.PriceScale
