import Mathlib.Data.List.Forall2
import StablePool.Proofs.Curve.PairedQuadratics

/-!
# Solves in order

Beside larger balances a free balance is smaller, and at a larger invariant it is larger. The
coefficients of the quadratic are rounded, but each rounding keeps the order: larger fixed balances
never lower the linear term or raise the constant one, and a larger invariant raises the share in the
linear term by no more than it grows itself. What is beyond the root of the one quadratic is therefore
beyond the root of the other, and since a solved balance lies within a unit of its root, the order of
two solved balances can be wrong by one unit at most, however far apart their arguments are.
-/

namespace StablePool.Curve

section

variable {b b' c c' d d' t : ℕ}

/-- A larger linear term and a smaller constant one leave a number beyond the root. -/
theorem BeyondRoot.of_le (h : BeyondRoot b c d t) (hb : b ≤ b') (hc : c' ≤ c) :
    BeyondRoot b' c' d t := by
  unfold BeyondRoot at h ⊢
  calc d * t + c' ≤ d * t + c := Nat.add_le_add_left hc _
    _ < t ^ 2 + b * t := h
    _ ≤ t ^ 2 + b' * t := Nat.add_le_add_left (Nat.mul_le_mul_right t hb) _

/-- A smaller invariant leaves a number beyond the root, if the linear term falls by no more than the
invariant does. -/
theorem BeyondRoot.of_invariant_le (h : BeyondRoot b' c' d' t) (hb : b' + d ≤ b + d')
    (hc : c ≤ c') : BeyondRoot b c d t := by
  unfold BeyondRoot at h ⊢
  have hslope : (b' + d) * t ≤ (b + d') * t := Nat.mul_le_mul_right t hb
  rw [Nat.add_mul, Nat.add_mul] at hslope
  omega

end

section

variable {fixed fixed' : List Amount} {count d d' ann : ℕ}

/-- The share of an invariant grows by no more than the invariant. -/
theorem share_add_le (hann : 0 < ann) (hd : d ≤ d') : d' / ann + d ≤ d / ann + d' := by
  obtain ⟨grown, rfl⟩ := Nat.exists_eq_add_of_le hd
  have hshare : (d + grown) / ann ≤ d / ann + grown := by
    rw [← Nat.add_mul_div_right d grown hann]
    exact Nat.div_le_div_right (Nat.add_le_add_left (Nat.le_mul_of_pos_right grown hann) d)
  omega

/-- Larger balances fold to no larger a product, from no larger a start. -/
theorem foldl_le_of_forall₂_le (hcount : 0 < count) (hpos : ∀ x ∈ fixed, 0 < x.val)
    (h : List.Forall₂ (· ≤ ·) fixed fixed') {c c' : ℕ} (hc : c' ≤ c) :
    fixed'.foldl (fun c x => c * d / (x.val * count)) c' ≤
      fixed.foldl (fun c x => c * d / (x.val * count)) c := by
  induction h generalizing c c' with
  | nil => exact hc
  | cons hx _ ih =>
    have hdivisor := Nat.mul_pos (hpos _ List.mem_cons_self) hcount
    refine ih (fun x hmem => hpos x (List.mem_cons_of_mem _ hmem)) ?_
    exact Nat.div_le_div (Nat.mul_le_mul_right d hc) (Nat.mul_le_mul_right count hx)
      (Nat.ne_of_gt hdivisor)

/-- Larger balances have no larger a folded product. -/
theorem foldedProduct_le_of_forall₂_le (hcount : 0 < count) (hpos : ∀ x ∈ fixed, 0 < x.val)
    (h : List.Forall₂ (· ≤ ·) fixed fixed') :
    foldedProduct fixed' count d ≤ foldedProduct fixed count d :=
  foldl_le_of_forall₂_le hcount hpos h (Nat.le_refl d)

/-- A larger invariant has no smaller a folded product. -/
theorem foldedProduct_mono (fixed : List Amount) (count : ℕ) (hd : d ≤ d') :
    foldedProduct fixed count d ≤ foldedProduct fixed count d' := by
  have hfold (c c' : ℕ) (hc : c ≤ c') :
      fixed.foldl (fun c x => c * d / (x.val * count)) c ≤
        fixed.foldl (fun c x => c * d' / (x.val * count)) c' := by
    induction fixed generalizing c c' with
    | nil => exact hc
    | cons x fixed ih => exact ih _ _ (Nat.div_le_div_right (Nat.mul_le_mul hc hd))
  exact hfold d d' hd

/-- Larger fixed balances have no smaller a linear term. -/
theorem linearTerm_le_of_forall₂_le (h : List.Forall₂ (· ≤ ·) fixed fixed') :
    linearTerm fixed d ann ≤ linearTerm fixed' d ann := by
  have hsum : (fixed.map Word.val).sum ≤ (fixed'.map Word.val).sum := by
    induction h with
    | nil => exact Nat.le_refl _
    | cons hx _ ih =>
      rw [List.map_cons, List.map_cons, List.sum_cons, List.sum_cons]
      exact Nat.add_le_add hx ih
  exact Nat.add_le_add_right hsum _

/-- Larger fixed balances have no larger a constant term. -/
theorem constantTerm_le_of_forall₂_le (hcount : 0 < count) (hpos : ∀ x ∈ fixed, 0 < x.val)
    (h : List.Forall₂ (· ≤ ·) fixed fixed') :
    constantTerm fixed' count d ann ≤ constantTerm fixed count d ann :=
  Nat.div_le_div_right
    (Nat.mul_le_mul_right d (foldedProduct_le_of_forall₂_le hcount hpos h))

/-- A larger invariant has no smaller a constant term. -/
theorem constantTerm_mono (fixed : List Amount) (count ann : ℕ) (hd : d ≤ d') :
    constantTerm fixed count d ann ≤ constantTerm fixed count d' ann :=
  Nat.div_le_div_right (Nat.mul_le_mul (foldedProduct_mono fixed count hd) hd)

end

section

variable {solver solver' : String} {fixed fixed' : List Amount} {count : ℕ} {d d' : Amount}
  {a : Amplification} {bound bound' : ℕ} {y y' : Amount}

/-- A solve that succeeds is for two assets or more. -/
theorem two_le_of_freeBalance_eq_ok
    (h : (freeBalance solver fixed count d a bound).result = .ok y) : 2 ≤ count := by
  obtain ⟨_, hcount, -⟩ := freeBalance_eq_ok h
  exact hcount

/-- Beside larger balances a free balance is larger by at most one unit. -/
theorem freeBalance_le_succ_of_forall₂_le (hle : List.Forall₂ (· ≤ ·) fixed fixed')
    (h : (freeBalance solver fixed count d a bound).result = .ok y)
    (h' : (freeBalance solver' fixed' count d a bound').result = .ok y') :
    y'.val ≤ y.val + 1 := by
  have hcount : 0 < count := Nat.lt_of_lt_of_le Nat.two_pos (two_le_of_freeBalance_eq_ok h)
  have hbeyond : BeyondRoot _ _ _ (y.val + 1) := (bracketsRoot_of_freeBalance h).lt_succ
  exact (bracketsRoot_of_freeBalance h').le_of_beyondRoot
    (hbeyond.of_le (linearTerm_le_of_forall₂_le hle)
      (constantTerm_le_of_forall₂_le hcount (pos_of_freeBalance_eq_ok h) hle))

/-- At a larger invariant a free balance is smaller by at most one unit. -/
theorem freeBalance_le_succ_of_invariant_le (hle : d ≤ d')
    (h : (freeBalance solver fixed count d a bound).result = .ok y)
    (h' : (freeBalance solver' fixed count d' a bound').result = .ok y') :
    y.val ≤ y'.val + 1 := by
  have hann : 0 < count * a.coefficient.val :=
    Nat.mul_pos (Nat.lt_of_lt_of_le Nat.two_pos (two_le_of_freeBalance_eq_ok h)) a.coefficient_pos
  have hbeyond : BeyondRoot _ _ _ (y'.val + 1) := (bracketsRoot_of_freeBalance h').lt_succ
  refine (bracketsRoot_of_freeBalance h).le_of_beyondRoot
    (hbeyond.of_invariant_le ?_ (constantTerm_mono fixed count _ hle))
  have hshare := share_add_le hann hle
  unfold linearTerm
  omega

end

/-- The balances held fixed by an exchange solver are all but one. -/
theorem length_fixed_of_outputBalance_eq_ok {i j : ℕ} {x : Amount} {xp : List Amount} {d : Amount}
    {a : Amplification} {bound : ℕ} {y : Amount}
    (h : (outputBalance i j x xp d a bound).result = .ok y) :
    ((xp.set i x).eraseIdx j).length + 1 = xp.length := by
  obtain ⟨-, hj, -⟩ := lt_of_outputBalance_eq_ok h
  rw [List.length_eraseIdx_of_lt (by rwa [List.length_set]), List.length_set]
  omega

/-- The balances held fixed by a solver for a given invariant are all but one. -/
theorem length_fixed_of_balanceAt_eq_ok {i : ℕ} {xp : List Amount} {d : Amount} {a : Amplification}
    {bound : ℕ} {y : Amount} (h : (balanceAt i xp d a bound).result = .ok y) :
    (xp.eraseIdx i).length + 1 = xp.length := by
  have hi := lt_of_balanceAt_eq_ok h
  rw [List.length_eraseIdx_of_lt hi]
  omega

/-- Balances that are compared entry by entry still are once one index is left out. -/
theorem forall₂_le_eraseIdx {xs xs' : List Amount} (h : List.Forall₂ (· ≤ ·) xs xs') (i : ℕ) :
    List.Forall₂ (· ≤ ·) (xs.eraseIdx i) (xs'.eraseIdx i) := by
  rw [List.eraseIdx_eq_take_drop_succ, List.eraseIdx_eq_take_drop_succ]
  exact List.rel_append (List.forall₂_take i h) (List.forall₂_drop (i + 1) h)

/-- Replacing one balance by a larger one leaves no balance smaller. -/
theorem forall₂_le_set {x x' : Amount} (hle : x ≤ x') (xp : List Amount) (i : ℕ) :
    List.Forall₂ (· ≤ ·) (xp.set i x) (xp.set i x') := by
  induction xp generalizing i with
  | nil => exact List.Forall₂.nil
  | cons x₀ xp ih =>
    cases i with
    | zero => exact List.Forall₂.cons hle (List.forall₂_same.2 fun x _ => Nat.le_refl x.val)
    | succ i => exact List.Forall₂.cons (Nat.le_refl x₀.val) (ih i)

/-- The balance solvers are monotone up to one unit, under any bounds on their passes. If no balance
that the first solve holds fixed exceeds the one in its place in the second, the second balance exceeds
the first by at most one unit; so it does if the same balances are kept but for a larger one of the
input asset. If the invariant is larger, with the same balances held fixed, the first balance exceeds
the second by at most one unit. -/
theorem solved_balances_ordered (a : Amplification) (bound bound' : ℕ) :
    (∀ (i i' j : ℕ) (x x' : Amount) (xp xp' : List Amount) (d y y' : Amount),
      List.Forall₂ (· ≤ ·) ((xp.set i x).eraseIdx j) ((xp'.set i' x').eraseIdx j) →
      (outputBalance i j x xp d a bound).result = .ok y →
      (outputBalance i' j x' xp' d a bound').result = .ok y' → y'.val ≤ y.val + 1) ∧
    (∀ (i j : ℕ) (x x' : Amount) (xp : List Amount) (d y y' : Amount), x ≤ x' →
      (outputBalance i j x xp d a bound).result = .ok y →
      (outputBalance i j x' xp d a bound').result = .ok y' → y'.val ≤ y.val + 1) ∧
    (∀ (i : ℕ) (xp xp' : List Amount) (d y y' : Amount),
      List.Forall₂ (· ≤ ·) (xp.eraseIdx i) (xp'.eraseIdx i) →
      (balanceAt i xp d a bound).result = .ok y →
      (balanceAt i xp' d a bound').result = .ok y' → y'.val ≤ y.val + 1) ∧
    (∀ (i : ℕ) (xp xp' : List Amount) (d d' y y' : Amount), d ≤ d' →
      xp.eraseIdx i = xp'.eraseIdx i →
      (balanceAt i xp d a bound).result = .ok y →
      (balanceAt i xp' d' a bound').result = .ok y' → y.val ≤ y'.val + 1) := by
  refine ⟨?outputs, ?inputs, ?balances, ?invariants⟩
  case outputs =>
    intro i i' j x x' xp xp' d y y' hle h h'
    have hlength : xp'.length = xp.length := by
      rw [← length_fixed_of_outputBalance_eq_ok h, ← length_fixed_of_outputBalance_eq_ok h',
        hle.length_eq]
    have hsolved := outputBalance_eq_ok h'
    rw [hlength] at hsolved
    exact freeBalance_le_succ_of_forall₂_le hle (outputBalance_eq_ok h) hsolved
  case inputs =>
    intro i j x x' xp d y y' hle h h'
    exact freeBalance_le_succ_of_forall₂_le (forall₂_le_eraseIdx (forall₂_le_set hle xp i) j)
      (outputBalance_eq_ok h) (outputBalance_eq_ok h')
  case balances =>
    intro i xp xp' d y y' hle h h'
    have hlength : xp'.length = xp.length := by
      rw [← length_fixed_of_balanceAt_eq_ok h, ← length_fixed_of_balanceAt_eq_ok h', hle.length_eq]
    have hsolved := balanceAt_eq_ok h'
    rw [hlength] at hsolved
    exact freeBalance_le_succ_of_forall₂_le hle (balanceAt_eq_ok h) hsolved
  case invariants =>
    intro i xp xp' d d' y y' hle hfixed h h'
    have hlength : xp'.length = xp.length := by
      rw [← length_fixed_of_balanceAt_eq_ok h, ← length_fixed_of_balanceAt_eq_ok h', hfixed]
    have hsolved := balanceAt_eq_ok h'
    rw [hlength, ← hfixed] at hsolved
    exact freeBalance_le_succ_of_invariant_le hle (balanceAt_eq_ok h) hsolved

/-- Three uneven balances: the outputs of an exchange that pays in a little and of one that pays in more,
for the second asset and for the third, and the balance of the third asset beside balances two units
apart, at nine tenths of the invariant and at the whole. -/
theorem solved_balances_ordered_uneven :
    let xp : List Amount := [.lit 1511922780182839, .lit 1932395124083698, .lit 1724082092237124]
    let more : List Amount := [.lit 1511922780182839, .lit 1932395124083700, .lit 1724082092237124]
    let a : Amplification := ⟨.lit 2000, by decide⟩
    let d : Amount := .lit 5168386971290620
    let less : Amount := .lit 4651548274161558
    let x : Amount := .lit 1512922780182839
    let x' : Amount := .lit 1612922780182839
    x ≤ x' ∧ (outputBalance 0 1 x xp d a 255).result = .ok (.lit 1931394998613529) ∧
      (outputBalance 0 1 x' xp d a 12).result = .ok (.lit 1831385576893853) ∧
      1831385576893853 ≤ 1931394998613529 + 1 ∧
      List.Forall₂ (· ≤ ·) ((xp.set 0 x).eraseIdx 2) ((more.set 0 x').eraseIdx 2) ∧
      (outputBalance 0 2 x xp d a 255).result = .ok (.lit 1723082021444374) ∧
      (outputBalance 0 2 x' more d a 12).result = .ok (.lit 1623078344217569) ∧
      1623078344217569 ≤ 1723082021444374 + 1 ∧
      List.Forall₂ (· ≤ ·) (xp.eraseIdx 2) (more.eraseIdx 2) ∧ less ≤ d ∧
      (balanceAt 2 xp less a 255).result = .ok (.lit 1207274413020017) ∧
      (balanceAt 2 more less a 12).result = .ok (.lit 1207274413020015) ∧
      1207274413020015 ≤ 1207274413020017 + 1 ∧
      (balanceAt 2 xp d a 12).result = .ok (.lit 1724082092237124) ∧
      1207274413020017 ≤ 1724082092237124 + 1 := by
  intro xp more a d less x x'
  have hinput : x ≤ x' := by decide
  have houtput : (outputBalance 0 1 x xp d a 255).result = .ok (.lit 1931394998613529) := by
    decide +kernel
  have houtput' : (outputBalance 0 1 x' xp d a 12).result = .ok (.lit 1831385576893853) := by
    decide +kernel
  have hpaid : List.Forall₂ (· ≤ ·) ((xp.set 0 x).eraseIdx 2) ((more.set 0 x').eraseIdx 2) :=
    .cons (by decide) (.cons (by decide) .nil)
  have hthird : (outputBalance 0 2 x xp d a 255).result = .ok (.lit 1723082021444374) := by
    decide +kernel
  have hthird' : (outputBalance 0 2 x' more d a 12).result = .ok (.lit 1623078344217569) := by
    decide +kernel
  have hfixed : List.Forall₂ (· ≤ ·) (xp.eraseIdx 2) (more.eraseIdx 2) :=
    .cons (by decide) (.cons (by decide) .nil)
  have hinvariant : less ≤ d := by decide
  have hless : (balanceAt 2 xp less a 255).result = .ok (.lit 1207274413020017) := by
    decide +kernel
  have hmore : (balanceAt 2 more less a 12).result = .ok (.lit 1207274413020015) := by
    decide +kernel
  have hwhole : (balanceAt 2 xp d a 12).result = .ok (.lit 1724082092237124) := by decide +kernel
  obtain ⟨houtputs, hinputs, hbalances, hinvariants⟩ := solved_balances_ordered a 255 12
  exact ⟨hinput, houtput, houtput', hinputs 0 1 x x' xp d _ _ hinput houtput houtput', hpaid,
    hthird, hthird', houtputs 0 0 2 x x' xp more d _ _ hpaid hthird hthird', hfixed,
    hinvariant, hless, hmore, hbalances 2 xp more less _ _ hfixed hless hmore, hwhole,
    hinvariants 2 xp xp less d _ _ hinvariant rfl hless hwhole⟩

end StablePool.Curve
