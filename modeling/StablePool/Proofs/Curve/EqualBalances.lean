import StablePool.Proofs.Curve.Computable

/-!
# The invariant of equal balances

At the sum of equal balances each fold multiplies the product term by that sum and divides it by that
sum again, so nothing is rounded and the first pass ends where it started. Every other product of the
pass lies below its numerator, which is therefore the first number that can become too large: the
invariant is the sum as long as the coefficient fits an amount and the numerator fits a wide word.
-/

namespace StablePool.Curve

section

variable {n count : ℕ} {x : Amount}

/-- Equal balances add up to so many times one of them. -/
theorem sum_replicate (n : ℕ) (x : Amount) :
    ((List.replicate n x).map Word.val).sum = n * x.val := by
  rw [List.map_replicate, List.sum_replicate, Nat.nsmul_eq_mul]

/-- Equal balances are positive if one of them is. -/
theorem allPositive_replicate (n : ℕ) (hx : 0 < x.val) : AllPositive (List.replicate n x) :=
  fun _ hy => List.eq_of_mem_replicate hy ▸ hx

/-- Folding in a balance, so many of which make up the invariant, changes nothing. -/
theorem mul_div_self_fold (hcount : 0 < count) (hx : 0 < x.val) (c : ℕ) :
    c * (count * x.val) / (x.val * count) = c := by
  rw [Nat.mul_comm x.val]
  exact Nat.mul_div_cancel c (Nat.mul_pos hcount hx)

/-- Nor does folding in any number of them. -/
theorem foldl_replicate_eq (hcount : 0 < count) (hx : 0 < x.val) (n c : ℕ) :
    (List.replicate n x).foldl (fun c x' => c * (count * x.val) / (x'.val * count)) c = c := by
  induction n with
  | zero => rfl
  | succ n ih => rw [List.replicate_succ, List.foldl_cons, mul_div_self_fold hcount hx, ih]

/-- The folded product of equal balances at their sum is the sum. -/
theorem foldedProduct_replicate (hcount : 0 < count) (hx : 0 < x.val) (n : ℕ) :
    foldedProduct (List.replicate n x) count (count * x.val) = count * x.val :=
  foldl_replicate_eq hcount hx n _

/-- The product term of equal balances at their sum is formed if the square of the sum fits. -/
theorem productTerm_replicate (hcount : 0 < n) (hx : 0 < x.val) {d : Wide}
    (hd : d.val = n * x.val) (hsquare : d.val * d.val < 2 ^ 256) :
    productTerm (List.replicate n x) d = .ok d := by
  have hpos : 0 < d.val := hd ▸ Nat.mul_pos hcount hx
  have hstep : (do
      let divisor ← x.widen.times n "D: n·x"
      let grown ← d.mul d "D: D_P·D"
      grown.div divisor "D: D_P fold") = .ok d := by
    simp only [Checked.bind_eq_ok_iff, Word.times_eq_ok_iff, Word.mul_eq_ok_iff, Word.div_eq_ok_iff]
    refine ⟨d, hd, ⟨d.val * d.val, hsquare⟩, rfl, hpos, ?_⟩
    exact (Nat.mul_div_cancel d.val hpos).symm
  have hfold (m : ℕ) : (List.replicate m x).foldlM (fun term x => do
      let divisor ← x.widen.times n "D: n·x"
      let grown ← term.mul d "D: D_P·D"
      grown.div divisor "D: D_P fold") d = .ok d := by
    induction m with
    | zero => rfl
    | succ m ih =>
      rw [List.replicate_succ, List.foldlM_cons]
      exact Checked.bind_eq_ok_iff.2 ⟨d, hstep, ih⟩
  rw [productTerm, List.length_replicate]
  exact hfold n

end

section

variable {n : ℕ} {x ann : Amount} {sum annSum z : Wide}

/-- A pass from the sum of equal balances ends at the sum, and is made exactly if its numerator fits. -/
theorem invariantPass_replicate_eq_ok_iff (hcount : 2 ≤ n) (hx : 0 < x.val) (hann : 0 < ann.val)
    (hsum : sum.val = n * x.val) (hannSum : annSum.val = ann.val * sum.val) :
    invariantPass (List.replicate n x) ann annSum sum = .ok z ↔
      z = sum ∧ (ann.val + n) * (n * x.val) ^ 2 < 2 ^ 256 := by
  have hn : 0 < n := by omega
  have hpos : 0 < sum.val := hsum ▸ Nat.mul_pos hn hx
  have hproduct : foldedProduct (List.replicate n x) n sum.val = sum.val := by
    rw [hsum]
    exact foldedProduct_replicate hn hx n
  have hnumerator : (annSum.val + n * sum.val) * sum.val = (ann.val + n) * (n * x.val) ^ 2 := by
    rw [hannSum, hsum]
    ring
  have hdenominator : (ann.val - 1) * sum.val + (n + 1) * sum.val = annSum.val + n * sum.val := by
    rw [hannSum, ← Nat.add_mul, ← Nat.add_mul]
    congr 1
    omega
  constructor
  · intro h
    have hfits := numerator_lt_of_invariantPass_eq_ok h
    have hstep := invariantPass_eq_ok h
    rw [List.length_replicate, hproduct] at hstep hfits
    refine ⟨Word.ext ?_, hnumerator ▸ hfits⟩
    have hdivisor := hstep.divisor_pos
    rw [hstep.eq_div, hdenominator]
    rw [hdenominator] at hdivisor
    exact Nat.mul_div_cancel_left _ hdivisor
  · rintro ⟨rfl, hfits⟩
    rw [← hnumerator] at hfits
    -- The numerator is the largest number of the pass.
    have hle : annSum.val + n * z.val ≤ (annSum.val + n * z.val) * z.val :=
      Nat.le_mul_of_pos_right _ hpos
    have hsquare : z.val * z.val ≤ (annSum.val + n * z.val) * z.val :=
      Nat.mul_le_mul_right _ ((Nat.le_mul_of_pos_left _ hn).trans (Nat.le_add_left _ _))
    have hterm := productTerm_replicate hn hx hsum (by omega)
    have hdivisor : 0 < annSum.val + n * z.val := Nat.add_pos_right _ (Nat.mul_pos hn hpos)
    simp only [invariantPass, Checked.bind_eq_ok_iff, Word.times_eq_ok_iff, Word.add_eq_ok_iff,
      Word.mul_eq_ok_iff, Word.div_eq_ok_iff, List.length_replicate]
    refine ⟨z, hterm, ⟨n * z.val, by omega⟩, rfl, ⟨annSum.val + n * z.val, by omega⟩, rfl,
      ⟨_, hfits⟩, rfl, ⟨(ann.val - 1) * z.val, by omega⟩, rfl, ⟨(n + 1) * z.val, by omega⟩, rfl,
      ⟨annSum.val + n * z.val, by omega⟩, hdenominator.symm, hdivisor, ?_⟩
    exact (Nat.mul_div_cancel_left _ hdivisor).symm

end

section

variable {pass : Wide → Checked Wide} {start : Wide}

/-- An iteration that ends where it starts settles with its first pass. -/
theorem settle_eq_of_fixed (h : pass start = .ok start) {bound : ℕ} (hbound : 1 ≤ bound) :
    settle pass bound start = .ok (some ⟨start, 1⟩) := by
  obtain ⟨more, rfl⟩ := Nat.exists_eq_add_of_le' hbound
  have hclose : (start.distance start).val ≤ 1 := by
    rw [Word.val_distance]
    omega
  rw [settle, settleFrom, h]
  exact if_pos hclose

end

/-- What an iteration for positive balances settles on is the invariant, if it fits an amount. -/
theorem invariant_eq_narrow {xp : List Amount} {a : Amplification} {bound : ℕ} {ann : Amount}
    {sum annSum : Wide} {s : Settled} (hpos : AllPositive xp) (hcount : 2 ≤ xp.length)
    (hsum : total xp = .ok sum) (hann : a.ann xp.length = .ok ann)
    (hannSum : ann.widen.mul sum "D: Ann·S" = .ok annSum)
    (hsettled : settle (invariantPass xp ann annSum) bound sum = .ok (some s)) :
    (invariant xp a bound).result = s.value.narrow "D exceeds u128" := by
  have hsome : sum ≠ 0 := by
    rw [Ne, Word.eq_zero_iff, total_eq_ok hsum]
    exact Nat.ne_of_gt (hpos.sum_pos hcount)
  have hnone : 0 ∉ xp := fun hzero => Nat.lt_irrefl 0 (hpos 0 hzero)
  rw [invariant, Logged.lift_bind_of_ok ((ensure_eq_ok_iff (u := ())).2 hcount),
    Logged.lift_bind_of_ok hsum, if_neg hsome,
    Logged.lift_bind_of_ok ((ensure_eq_ok_iff (u := ())).2 hnone), Logged.lift_bind_of_ok hann,
    Logged.lift_bind_of_ok hannSum, Logged.lift_bind_of_ok hsettled]
  rfl

section

variable {n : ℕ} {x : Amount} {a : Amplification} {bound : ℕ}

/-- If the coefficient and the numerator of the first pass fit, the invariant of equal balances is their
sum. -/
theorem exists_invariant_replicate_eq_ok (hcount : 2 ≤ n) (hx : 0 < x.val) (hbound : 1 ≤ bound)
    (hann : n * a.coefficient.val < 2 ^ 128)
    (hfits : (n * a.coefficient.val + n) * (n * x.val) ^ 2 < 2 ^ 256) :
    ∃ d : Amount, d.val = n * x.val ∧ (invariant (List.replicate n x) a bound).result = .ok d := by
  have hpos : 0 < n * x.val := Nat.mul_pos (by omega) hx
  have hcoefficient : 0 < n * a.coefficient.val := Nat.mul_pos (by omega) a.coefficient_pos
  have hlinear : n * a.coefficient.val * (n * x.val) ≤
      (n * a.coefficient.val + n) * (n * x.val) ^ 2 := by
    rw [pow_two]
    exact Nat.mul_le_mul (Nat.le_add_right _ n) (Nat.le_mul_of_pos_right _ hpos)
  have hsquare : (n * x.val) ^ 2 < (2 ^ 128) ^ 2 := by
    calc (n * x.val) ^ 2 ≤ (n * a.coefficient.val + n) * (n * x.val) ^ 2 :=
          Nat.le_mul_of_pos_left _ (by omega)
      _ < 2 ^ 256 := hfits
  have hnarrow : n * x.val < 2 ^ 128 := lt_of_pow_lt_pow_left₀ 2 (Nat.zero_le _) hsquare
  have hvalue := sum_replicate n x
  have hroom : ((List.replicate n x).map Word.val).sum < 2 ^ 256 := by
    rw [hvalue]
    omega
  obtain ⟨sum, htotal⟩ := exists_total_eq_ok hroom
  have hsum : sum.val = n * x.val := (total_eq_ok htotal).trans hvalue
  let ann : Amount := ⟨n * a.coefficient.val, hann⟩
  have hannSum : ann.val * sum.val < 2 ^ 256 := by
    rw [hsum]
    exact hlinear.trans_lt hfits
  have hpass : invariantPass (List.replicate n x) ann ⟨_, hannSum⟩ sum = .ok sum :=
    (invariantPass_replicate_eq_ok_iff hcount hx hcoefficient hsum rfl).2 ⟨rfl, hfits⟩
  have hresult := invariant_eq_narrow (a := a) (allPositive_replicate n hx)
    (by rwa [List.length_replicate]) htotal
    (Amplification.ann_eq_ok_iff.2 (by rw [List.length_replicate])) (Word.mul_eq_ok_iff.2 rfl)
    (settle_eq_of_fixed hpass hbound)
  refine ⟨⟨n * x.val, hnarrow⟩, rfl, ?_⟩
  rw [hresult]
  exact Word.narrow_eq_ok_iff.2 hsum.symm

/-- If the invariant of equal balances is computed, it is their sum, and the coefficient and the
numerator of the first pass fit. -/
theorem invariant_replicate_eq_ok (hx : 0 < x.val) {d : Amount}
    (h : (invariant (List.replicate n x) a bound).result = .ok d) :
    d.val = n * x.val ∧ n * a.coefficient.val < 2 ^ 128 ∧
      (n * a.coefficient.val + n) * (n * x.val) ^ 2 < 2 ^ 256 := by
  obtain ⟨hcount, sum, hsum, hsolved⟩ := invariant_eq_ok h
  rw [List.length_replicate] at hcount
  rw [sum_replicate] at hsum
  obtain ⟨hzero, -⟩ | ⟨ann, annSum, s, hann, hannSum, hsettled, hd⟩ := hsolved
  · have := Nat.mul_pos (show 0 < n by omega) hx
    omega
  · rw [List.length_replicate] at hann
    have hcoefficient : 0 < ann.val := hann ▸ Nat.mul_pos (by omega) a.coefficient_pos
    have hpass (z : Wide) := invariantPass_replicate_eq_ok_iff (z := z) hcount hx hcoefficient hsum
      hannSum
    have hbound : 1 ≤ bound := by
      refine Nat.pos_of_ne_zero fun hzero => ?_
      subst hzero
      simp [settle, settleFrom, pure, Except.pure] at hsettled
    obtain ⟨more, rfl⟩ := Nat.exists_eq_add_of_le' hbound
    obtain ⟨next, hnext, -⟩ := Checked.bind_eq_ok_iff.1 hsettled
    obtain ⟨rfl, hfits⟩ := (hpass next).1 hnext
    rw [settle_eq_of_fixed hnext hbound] at hsettled
    obtain rfl := Option.some.inj (Except.ok.inj hsettled)
    rw [hann] at hfits
    exact ⟨hd.trans hsum, hann ▸ ann.val_lt, hfits⟩

/-- The invariant of balances that are all equal, or all zero, is their sum. -/
theorem val_invariant_of_forall_eq {xp : List Amount} {value : ℕ} (h : ∀ y ∈ xp, y.val = value)
    {d : Amount} (hd : (invariant xp a bound).result = .ok d) : d.val = xp.length * value := by
  obtain ⟨hcount, -⟩ := invariant_eq_ok hd
  rcases Nat.eq_zero_or_pos value with rfl | hpos
  · have hzero : AllZero xp := h
    have hnone := hd.symm.trans (hzero.invariant_eq hcount a bound)
    rw [Except.ok.inj hnone, Nat.mul_zero, Word.val_zero]
  · obtain ⟨y, hy⟩ := List.exists_mem_of_length_pos (Nat.lt_of_lt_of_le Nat.two_pos hcount)
    have hsame : xp = List.replicate xp.length y :=
      List.eq_replicate_iff.2 ⟨rfl, fun z hz => Word.ext ((h z hz).trans (h y hy).symm)⟩
    rw [hsame] at hd
    rw [(invariant_replicate_eq_ok (h y hy ▸ hpos) hd).1, h y hy]

/-- The iteration for equal balances is never given up, unless no pass is allowed. -/
theorem settle_replicate_ne_none (hcount : 2 ≤ n) (hx : 0 < x.val) (hbound : 1 ≤ bound) {ann : Amount}
    {sum annSum : Wide} (hann : 0 < ann.val) (hsum : sum.val = n * x.val)
    (hannSum : annSum.val = ann.val * sum.val) :
    settle (invariantPass (List.replicate n x) ann annSum) bound sum ≠ .ok none := by
  obtain ⟨more, rfl⟩ := Nat.exists_eq_add_of_le' hbound
  intro hnone
  obtain ⟨next, hnext, hfar, -⟩ := settleFrom_succ_eq_none_iff.1 hnone
  obtain ⟨rfl, -⟩ := (invariantPass_replicate_eq_ok_iff hcount hx hann hsum hannSum).1 hnext
  rw [Word.val_distance] at hfar
  omega

/-- The invariant of equal positive balances is their sum, whatever the amplification and the bound on
the passes, exactly as long as the coefficient fits an amount and the numerator of the first pass fits a
wide word; otherwise the solve is refused for overflow. -/
theorem equal_balances_add_up (hcount : 2 ≤ n) (hx : 0 < x.val) (a : Amplification)
    (hbound : 1 ≤ bound) :
    (n * a.coefficient.val < 2 ^ 128 ∧
        (n * a.coefficient.val + n) * (n * x.val) ^ 2 < 2 ^ 256 →
      ∃ d : Amount, d.val = n * x.val ∧
        (invariant (List.replicate n x) a bound).result = .ok d) ∧
    (¬ (n * a.coefficient.val < 2 ^ 128 ∧
        (n * a.coefficient.val + n) * (n * x.val) ^ 2 < 2 ^ 256) →
      ∃ step, (invariant (List.replicate n x) a bound).result = .error (.overflow step)) := by
  refine ⟨fun ⟨hann, hfits⟩ => exists_invariant_replicate_eq_ok hcount hx hbound hann hfits,
    fun hlarge => ?_⟩
  have hrefuses : Checked.RefusesOnly (fun cause => ∃ step, cause = .overflow step)
      (invariant (List.replicate n x) a bound).result := by
    refine (allPositive_replicate n hx).refusesOnly_invariant_of_settle (fun step => ⟨step, rfl⟩)
      (by rwa [List.length_replicate]) a fun ann sum annSum hann hsum hannSum hnone => ?_
    rw [List.length_replicate] at hann
    rw [sum_replicate] at hsum
    exact absurd hnone (settle_replicate_ne_none hcount hx hbound
      (hann ▸ Nat.mul_pos (by omega) a.coefficient_pos) hsum hannSum)
  cases hresult : (invariant (List.replicate n x) a bound).result with
  | ok d => exact absurd (invariant_replicate_eq_ok hx hresult).2 hlarge
  | error cause =>
    obtain ⟨step, rfl⟩ := hrefuses cause hresult
    exact ⟨step, rfl⟩

/-- Two equal balances on either side of the edge of a wide word, under a single pass, and a coefficient
just beyond an amount. -/
theorem equal_balances_add_up_at_the_edge :
    let a : Amplification := ⟨1, by decide⟩
    let steep : Amplification := ⟨.lit (2 ^ 127), by decide⟩
    let last : Amount := .lit (2 ^ 126 - 1)
    let first : Amount := .lit (2 ^ 126)
    (2 * 1 < 2 ^ 128 ∧ (2 * 1 + 2) * (2 * last.val) ^ 2 < 2 ^ 256) ∧
      (∃ d : Amount, d.val = 2 * last.val ∧
        (invariant (List.replicate 2 last) a 1).result = .ok d) ∧
      ¬ (2 * 1 < 2 ^ 128 ∧ (2 * 1 + 2) * (2 * first.val) ^ 2 < 2 ^ 256) ∧
      (∃ step, (invariant (List.replicate 2 first) a 1).result = .error (.overflow step)) ∧
      ∃ step, (invariant (List.replicate 2 1) steep 255).result = .error (.overflow step) := by
  intro a steep last first
  have htwo : 2 ≤ 2 := Nat.le_refl 2
  have hone : 1 ≤ 1 := Nat.le_refl 1
  have hlast := equal_balances_add_up htwo (show 0 < last.val by decide) a hone
  have hfirst := equal_balances_add_up htwo (show 0 < first.val by decide) a hone
  have hsteep := equal_balances_add_up htwo (show 0 < (1 : Amount).val by decide) steep
    (show 1 ≤ 255 by decide)
  exact ⟨by decide, hlast.1 (by decide), by decide, hfirst.2 (by decide), hsteep.2 (by decide)⟩

end

end StablePool.Curve
