import StablePool.Proofs.Curve.RaisedBalance
import StablePool.Proofs.Pool.SwapInvariant

/-!
# Exchanges on an even pool

On a pool whose price-scaled balances are all equal the invariant is their sum, and what an exchange
solves for is no smaller than the balance less what is paid in. The unit that is withheld then makes the
exchange cost more than it yields, before any fee. With unit scales nothing but the two positions tells
one exchange from another, and the solve does not depend on these.
-/

namespace StablePool.Pool

/-- The price-scaled balances are equal, and there is something of each asset. -/
structure IsEven (p : Pool) (x : Amount) : Prop where
  pos : 0 < x.val
  scaled_eq : p.scaled = .ok (List.replicate p.assetCount x)

section

variable {p : Pool} {x : Amount} {i j : Nat}

/-- Two assets of an even pool have the same price-scaled balance, and the invariant is so many times
that balance as there are assets. -/
theorem Pair.IsOf.of_isEven {pair : Pair} (h : pair.IsOf p i j) (heven : p.IsEven x) :
    pair.xp = List.replicate p.assetCount x ∧ pair.d.val = p.assetCount * x.val ∧
      pair.x = x ∧ pair.y = x := by
  have hxp : pair.xp = List.replicate p.assetCount x :=
    Except.ok.inj (h.scaled_eq.symm.trans heven.scaled_eq)
  have hd := h.invariant_eq
  have hx := h.x_eq
  have hy := h.y_eq
  rw [hxp] at hd hx hy
  exact ⟨hxp, (Curve.invariant_replicate_eq_ok heven.pos hd).1,
    List.eq_of_mem_replicate (List.mem_of_getElem? hx),
    List.eq_of_mem_replicate (List.mem_of_getElem? hy)⟩

/-- On an even pool an exchange takes less from the curve than is paid in, in price-scaled units. -/
theorem SwapCourse.LeadsTo.gross_lt_paid {s : SwapCourse} {dx : Amount} {q : SwapQuote}
    (hs : s.LeadsTo p i j dx q) (heven : p.IsEven x) : s.gross.val < s.paid.val := by
  obtain ⟨hxp, hd, hx, hy⟩ := hs.pair_isOf.of_isEven heven
  obtain ⟨hi, -⟩ := List.getElem?_eq_some_iff.1 hs.pair_isOf.x_eq
  obtain ⟨hj, -⟩ := List.getElem?_eq_some_iff.1 hs.pair_isOf.y_eq
  rw [hs.pair_isOf.length_xp] at hi hj
  obtain ⟨before, after, hcount, hfixed⟩ :=
    Curve.exists_eraseIdx_set_replicate hi hj hs.pair_isOf.ne x s.x
  have hraised := hs.val_x
  have hgross := hs.gross_add
  rw [hx] at hraised
  rw [hy] at hgross
  have hsolved := Curve.outputBalance_eq_ok hs.solved
  rw [hs.pair_isOf.length_xp, hxp, hfixed] at hsolved
  have hleast := Curve.le_of_freeBalance_equalButOne hcount heven.pos (by omega) hd hsolved
  omega

/-- On an even pool with unit scales an exchange pays out less than is paid in, with the fee counted as
paid out. -/
theorem amountOut_add_fee_lt {dx : Amount} {q : SwapQuote} (heven : p.IsEven x)
    (hunit : p.HasUnitScales) (h : (p.quoteSwap i j dx).result = .ok q) :
    q.amountOut.val + q.fee.val < dx.val := by
  obtain ⟨s, hs⟩ := exists_course_of_quoteSwap_eq_ok h
  have hsource := hunit.scale_eq hs.pair_isOf.source_eq
  have htarget := hunit.scale_eq hs.pair_isOf.target_eq
  have hlt := hs.gross_lt_paid heven
  have hfee := hs.fee_le
  rw [hs.val_paid, hsource, PriceScale.scaledUnits_one] at hlt
  rw [hs.val_amountOut, hs.val_quotedFee, htarget, PriceScale.nativeUnits_one,
    PriceScale.nativeUnits_one]
  omega

/-- Two assets of an even pool are looked up by computing the invariant. -/
theorem pair_eq_of_isEven (heven : p.IsEven x) {source target : Asset}
    (hsource : p.assets[i]? = some source) (htarget : p.assets[j]? = some target) (hne : i ≠ j) :
    p.pair i j = p.curveInvariant (List.replicate p.assetCount x) >>= fun d =>
      pure ⟨source, target, List.replicate p.assetCount x, d, x, x⟩ := by
  have hi : i < p.assetCount := (List.getElem?_eq_some_iff.1 hsource).1
  have hj : j < p.assetCount := (List.getElem?_eq_some_iff.1 htarget).1
  rw [pair, Logged.lift_bind_of_ok (entry_eq_ok_iff.2 hsource),
    Logged.lift_bind_of_ok (entry_eq_ok_iff.2 htarget),
    Logged.lift_bind_of_ok ((ensure_eq_ok_iff (u := ())).2 hne), Logged.lift_bind_of_ok heven.scaled_eq]
  refine Logged.bind_congr_of_ok fun d _ => ?_
  rw [Logged.lift_bind_of_ok (entry_eq_ok_iff.2 (List.getElem?_replicate_of_lt hi)),
    Logged.lift_bind_of_ok (entry_eq_ok_iff.2 (List.getElem?_replicate_of_lt hj))]

/-- On an even pool with unit scales a quote does not depend on which two assets are exchanged, neither
in its outcome nor in what it reports. -/
theorem quoteSwap_eq_of_isEven {i' j' : Nat} (heven : p.IsEven x) (hunit : p.HasUnitScales)
    (hi : i < p.assetCount) (hj : j < p.assetCount) (hne : i ≠ j) (hi' : i' < p.assetCount)
    (hj' : j' < p.assetCount) (hne' : i' ≠ j') (dx : Amount) :
    p.quoteSwap i j dx = p.quoteSwap i' j' dx := by
  have hsource := List.getElem?_eq_getElem hi
  have htarget := List.getElem?_eq_getElem hj
  have hsource' := List.getElem?_eq_getElem hi'
  have htarget' := List.getElem?_eq_getElem hj'
  rw [quoteSwap, quoteSwap, pair_eq_of_isEven heven hsource htarget hne,
    pair_eq_of_isEven heven hsource' htarget' hne', bind_assoc, bind_assoc]
  refine Logged.bind_congr_of_ok fun d hd => ?_
  have hsum := (Curve.invariant_replicate_eq_ok heven.pos hd).1
  simp only [pure_bind, hunit.scale_eq hsource, hunit.scale_eq htarget, hunit.scale_eq hsource',
    hunit.scale_eq htarget']
  refine Logged.bind_congr_of_ok fun paid _ => Logged.bind_congr_of_ok fun raised hraised => ?_
  have hle : x.val ≤ raised.val := by
    rw [Word.add_eq_ok_iff.1 hraised]
    exact Nat.le_add_right _ _
  rw [Curve.outputBalance_replicate_eq hi hj hne hi' hj' hne' heven.pos hle hsum]

end

/-- On an even pool no exchange is one for one. Whatever the assets, what an exchange takes from the
curve is at least a unit less than what is paid in, both in price-scaled units and before any fee, and
an exchange that pays in nothing is refused. With unit scales what is paid out and the fee are together
less than what is paid in, and the same is quoted for every two assets. -/
theorem quoteSwap_on_even_pool {p : Pool} {x : Amount} (heven : p.IsEven x) :
    (∀ i j dx q, (p.quoteSwap i j dx).result = .ok q →
      ∃ s : SwapCourse, s.LeadsTo p i j dx q ∧ s.gross.val + 1 ≤ s.paid.val) ∧
    (∀ (i j : Nat) (dx : Amount) (source : Asset), p.assets[i]? = some source →
      source.scale.scaledUnits dx.val = 0 → ∀ q, (p.quoteSwap i j dx).result ≠ .ok q) ∧
    (p.HasUnitScales →
      (∀ i j dx q, (p.quoteSwap i j dx).result = .ok q →
        q.amountOut.val + q.fee.val < dx.val) ∧
      ∀ i j i' j' dx, i < p.assetCount → j < p.assetCount → i ≠ j → i' < p.assetCount →
        j' < p.assetCount → i' ≠ j' → p.quoteSwap i j dx = p.quoteSwap i' j' dx) := by
  refine ⟨fun i j dx q h => ?_, fun i j dx source hsource hnothing q h => ?_, fun hunit => ⟨?_, ?_⟩⟩
  · obtain ⟨s, hs⟩ := exists_course_of_quoteSwap_eq_ok h
    exact ⟨s, hs, hs.gross_lt_paid heven⟩
  · obtain ⟨s, hs⟩ := exists_course_of_quoteSwap_eq_ok h
    obtain rfl : s.pair.source = source :=
      Option.some.inj (hs.pair_isOf.source_eq.symm.trans hsource)
    have hlt := hs.gross_lt_paid heven
    rw [hs.val_paid, hnothing] at hlt
    exact Nat.not_lt_zero _ hlt
  · exact fun i j dx q h => amountOut_add_fee_lt heven hunit h
  · exact fun i j i' j' dx hi hj hne hi' hj' hne' =>
      quoteSwap_eq_of_isEven heven hunit hi hj hne hi' hj' hne' dx

/-- Three even assets without a fee: what nine hundred units buy is less, whichever two assets are
exchanged, and no units buy nothing. -/
theorem quoteSwap_on_even_pool_of_three :
    let p : Pool := {
      terms := {
        amplification := ⟨.lit 100, by decide⟩
        fee := ⟨.lit 0⟩
        adminFee := ⟨.lit 0⟩
        maxIterations := Curve.defaultBound
        fee_isValid := by decide
        adminFee_isValid := by decide }
      assets := [⟨.lit 1000, 0, .one⟩, ⟨.lit 1000, 0, .one⟩, ⟨.lit 1000, 0, .one⟩]
      tokenSupply := 0 }
    let q : SwapQuote := ⟨.lit 869, .lit 0, .lit 1900, .lit 130⟩
    p.IsEven (.lit 1000) ∧ p.HasUnitScales ∧ (p.quoteSwap 0 1 (.lit 900)).result = .ok q ∧
      q.amountOut.val + q.fee.val < 900 ∧ p.quoteSwap 0 1 (.lit 900) = p.quoteSwap 2 0 (.lit 900) ∧
      (∀ q, (p.quoteSwap 0 1 0).result ≠ .ok q) := by
  intro p q
  have heven : p.IsEven (.lit 1000) := ⟨by decide, by decide +kernel⟩
  have hunit : p.HasUnitScales := by decide
  have hquote : (p.quoteSwap 0 1 (.lit 900)).result = .ok q := by decide +kernel
  obtain ⟨-, hnothing, hscales⟩ := quoteSwap_on_even_pool heven
  obtain ⟨hless, hsame⟩ := hscales hunit
  exact ⟨heven, hunit, hquote, hless 0 1 (.lit 900) q hquote,
    hsame 0 1 2 0 (.lit 900) (by decide) (by decide) (by decide) (by decide) (by decide) (by decide),
    hnothing 0 1 0 _ rfl (by decide)⟩

end StablePool.Pool
