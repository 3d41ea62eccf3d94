import StablePool.FeeRate

/-!
# What a fee leaves

A fee is rounded down, so what it leaves of an amount is the quotient rounded up. A larger amount is
left with no less, and an amount that was divided by the share that the fee leaves, rounded down, is
left with exactly what was asked for.
-/

namespace StablePool.FeeRate

/-- The fee on an amount. -/
def charge (rate : FeeRate) (amount : Nat) : Nat := amount * rate.numerator.val / denominator

/-- What the fee leaves of an amount. -/
def net (rate : FeeRate) (amount : Nat) : Nat := amount - rate.charge amount

/-- An amount divided by the share that the fee leaves, rounded down. -/
def grossFor (rate : FeeRate) (wanted : Nat) : Nat :=
  wanted * denominator / (denominator - rate.numerator.val)

variable {rate : FeeRate}

/-- What a valid fee leaves is the quotient, rounded up. -/
theorem IsValid.net_eq (h : rate.IsValid) (amount : Nat) :
    rate.net amount = (amount * (denominator - rate.numerator.val) + 9999) / 10000 := by
  have hparts : amount * rate.numerator.val + amount * (denominator - rate.numerator.val) =
      amount * 10000 := by
    rw [← Nat.mul_add, Nat.add_sub_cancel' h]
    rfl
  have hcharge : rate.charge amount = amount * rate.numerator.val / 10000 := rfl
  rw [net, hcharge]
  omega

/-- Of a larger amount no less is left. -/
theorem IsValid.net_mono (h : rate.IsValid) {a b : Nat} (hle : a ≤ b) : rate.net a ≤ rate.net b := by
  rw [h.net_eq, h.net_eq]
  exact Nat.div_le_div_right (Nat.add_le_add_right (Nat.mul_le_mul_right _ hle) _)

/-- Of so many units less at most so many units less are left. -/
theorem net_le_net_sub_add (amount less : Nat) :
    rate.net amount ≤ rate.net (amount - less) + less := by
  have hcharge : rate.charge (amount - less) ≤ rate.charge amount :=
    Nat.div_le_div_right (Nat.mul_le_mul_right _ (Nat.sub_le _ _))
  unfold net
  omega

/-- Of the amount grossed up for the fee exactly what was wanted is left, unless the fee takes
everything. -/
theorem net_grossFor (h : rate.numerator.val < denominator) (wanted : Nat) :
    rate.net (rate.grossFor wanted) = wanted := by
  have hshare : 0 < denominator - rate.numerator.val := Nat.sub_pos_of_lt h
  have hle : rate.grossFor wanted * (denominator - rate.numerator.val) ≤ wanted * 10000 :=
    Nat.div_mul_le_self _ _
  have hlt : wanted * 10000 < (rate.grossFor wanted + 1) * (denominator - rate.numerator.val) := by
    rw [Nat.mul_comm (_ + 1)]
    exact Nat.lt_mul_div_succ _ hshare
  rw [Nat.succ_mul] at hlt
  have hden : denominator - rate.numerator.val ≤ 10000 := Nat.sub_le _ _
  rw [IsValid.net_eq (Nat.le_of_lt h)]
  omega

/-- The fee on a grossed up amount can be charged, and is what the amount was grossed up by. -/
theorem exists_apply_grossFor (h : rate.numerator.val < denominator) {wanted gross : Amount}
    (hgross : gross.val = rate.grossFor wanted.val) :
    ∃ fee, rate.apply gross = .ok fee ∧ fee ≤ gross ∧ gross.monus fee = wanted := by
  obtain ⟨fee, hfee, hle⟩ := IsValid.exists_apply_eq_ok (Nat.le_of_lt h) gross
  have hcharged : fee.val = rate.charge gross.val := apply_eq_ok_iff.1 hfee
  refine ⟨fee, hfee, hle, Word.ext ?_⟩
  calc (gross.monus fee).val = rate.net gross.val := by rw [Word.val_monus, hcharged, net]
    _ = wanted.val := by rw [hgross, net_grossFor h]

end StablePool.FeeRate
