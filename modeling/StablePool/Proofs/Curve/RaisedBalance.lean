import StablePool.Proofs.Curve.EqualBalances
import StablePool.Proofs.Curve.PairedQuadratics

/-!
# A solve beside equal balances and a raised one

An exchange on equal balances solves beside all of them but two and beside the raised one. At the
invariant of the equal balances each of these folds exactly, so the coefficients of the quadratic do not
depend on where the raised balance stands, and its one rounded fold still leaves the constant term no
smaller than the linear part at the balance less the rise. The solved balance is therefore no smaller
than that, however large the rise.
-/

namespace StablePool.Curve

/-- Equal balances in a row, with one of another value among them. -/
def equalButOne (before after : ℕ) (x raised : Amount) : List Amount :=
  List.replicate before x ++ raised :: List.replicate after x

/-- Replacing one of equal balances leaves those before and after it. -/
theorem set_replicate_eq {n i : ℕ} (hi : i < n) (x raised : Amount) :
    (List.replicate n x).set i raised = equalButOne i (n - (i + 1)) x raised := by
  rw [List.set_eq_take_cons_drop raised (by rwa [List.length_replicate]), List.take_replicate,
    List.drop_replicate, Nat.min_eq_left (Nat.le_of_lt hi), equalButOne]

/-- Replacing one of equal balances and leaving out another leaves equal balances but one. -/
theorem exists_eraseIdx_set_replicate {n i j : ℕ} (hi : i < n) (hj : j < n) (hne : i ≠ j)
    (x raised : Amount) : ∃ before after, before + after + 2 = n ∧
      ((List.replicate n x).set i raised).eraseIdx j = equalButOne before after x raised := by
  rcases Nat.lt_or_gt_of_ne hne with hlt | hgt
  · rw [List.eraseIdx_set_gt hlt, List.eraseIdx_replicate, if_pos hj, set_replicate_eq (by omega)]
    exact ⟨i, _, by omega, rfl⟩
  · rw [List.eraseIdx_set_lt hgt, List.eraseIdx_replicate, if_pos hj, set_replicate_eq (by omega)]
    exact ⟨i - 1, _, by omega, rfl⟩

section

variable {n before after : ℕ} {x raised : Amount}

/-- Equal balances but one add up to the equal ones and that one. -/
theorem sum_equalButOne (hcount : before + after + 2 = n) :
    ((equalButOne before after x raised).map Word.val).sum + 2 * x.val = n * x.val + raised.val := by
  rw [equalButOne, List.map_append, List.map_cons, List.sum_append, List.sum_cons, sum_replicate,
    sum_replicate, ← hcount]
  ring

/-- At the invariant of the equal balances only the fold of the other one is rounded. -/
theorem foldedProduct_equalButOne (hcount : before + after + 2 = n) (hx : 0 < x.val) :
    foldedProduct (equalButOne before after x raised) n (n * x.val) =
      n * x.val * (n * x.val) / (raised.val * n) := by
  have hn : 0 < n := by omega
  rw [foldedProduct, equalButOne, List.foldl_append, List.foldl_cons, foldl_replicate_eq hn hx,
    foldl_replicate_eq hn hx]

/-- None of them is smaller than the equal ones if that one is not. -/
theorem le_of_mem_equalButOne (hle : x.val ≤ raised.val) {y : Amount}
    (hy : y ∈ equalButOne before after x raised) : x.val ≤ y.val := by
  rcases List.mem_append.1 hy with hbefore | hrest
  · rw [List.eq_of_mem_replicate hbefore]
  · rcases List.mem_cons.1 hrest with rfl | hafter
    · exact hle
    · rw [List.eq_of_mem_replicate hafter]

/-- Of the square of `n` equal balances, so many parts as another one has are no fewer than `n` times
what the equal ones exceed the rise to it by. -/
theorem mul_le_fold (hn : 0 < n) (hx : 0 < x.val) (hle : x.val ≤ raised.val) :
    n * (x.val - (raised.val - x.val)) ≤ n * x.val * (n * x.val) / (raised.val * n) := by
  rw [Nat.le_div_iff_mul_le (Nat.mul_pos (by omega) hn)]
  obtain ⟨rise, hrise⟩ := Nat.exists_eq_add_of_le hle
  have hsquares : (x.val - rise) * (x.val + rise) ≤ x.val * x.val := by
    rw [Nat.mul_comm, ← Nat.mul_self_sub_mul_self_eq]
    exact Nat.sub_le _ _
  rw [hrise, Nat.add_sub_cancel_left]
  calc n * (x.val - rise) * ((x.val + rise) * n) = n * n * ((x.val - rise) * (x.val + rise)) := by
        ring
    _ ≤ n * n * (x.val * x.val) := Nat.mul_le_mul_left _ hsquares
    _ = n * x.val * (n * x.val) := by ring

/-- At the invariant of equal balances, the balance less the rise of another one is not beyond the root
beside it. -/
theorem not_beyondRoot_equalButOne {ann : ℕ} (hcount : before + after + 2 = n) (hx : 0 < x.val)
    (hle : x.val ≤ raised.val) :
    ¬ BeyondRoot (linearTerm (equalButOne before after x raised) (n * x.val) ann)
      (constantTerm (equalButOne before after x raised) n (n * x.val) ann) (n * x.val)
      (x.val - (raised.val - x.val)) := by
  have hn : 0 < n := by omega
  have hsum : ((equalButOne before after x raised).map Word.val).sum + 2 * x.val =
      n * x.val + raised.val := sum_equalButOne hcount
  rcases Nat.eq_zero_or_pos (x.val - (raised.val - x.val)) with hzero | hsome
  · simp [hzero, BeyondRoot]
  generalize hleft : x.val - (raised.val - x.val) = left at hsome ⊢
  -- The sum beside the free balance is the invariant less what the balance is to keep.
  have hlinear : linearTerm (equalButOne before after x raised) (n * x.val) ann + left =
      n * x.val + n * x.val / ann := by
    unfold linearTerm
    omega
  have hconstant : left * (n * x.val / ann) ≤
      constantTerm (equalButOne before after x raised) n (n * x.val) ann := by
    rw [constantTerm, foldedProduct_equalButOne hcount hx]
    calc left * (n * x.val / ann) ≤ left * (n * x.val) / ann := Nat.mul_div_le_mul_div_assoc _ _ _
      _ = n * (left * (n * x.val)) / (n * ann) := (Nat.mul_div_mul_left _ _ hn).symm
      _ ≤ n * x.val * (n * x.val) / (raised.val * n) * (n * x.val) / (n * ann) := by
          apply Nat.div_le_div_right
          rw [← Nat.mul_assoc, ← hleft]
          exact Nat.mul_le_mul_right _ (mul_le_fold hn hx hle)
  rw [beyondRoot_iff_lt_mul hlinear]
  exact Nat.not_lt.2 hconstant

/-- At the invariant of equal balances, what is solved for beside a raised one is no smaller than the
balance less the rise. -/
theorem le_of_freeBalance_equalButOne {solver : String} {d : Amount} {a : Amplification} {bound : ℕ}
    {y : Amount} (hcount : before + after + 2 = n) (hx : 0 < x.val) (hle : x.val ≤ raised.val)
    (hd : d.val = n * x.val)
    (h : (freeBalance solver (equalButOne before after x raised) n d a bound).result = .ok y) :
    x.val ≤ y.val + (raised.val - x.val) := by
  have hbracket := bracketsRoot_of_freeBalance h
  rw [hd] at hbracket
  have hleast := hbracket.le_of_not_beyondRoot (not_beyondRoot_equalButOne hcount hx hle)
  omega

end

section

variable {fixed : List Amount} {count : ℕ} {d ann : Amount}

/-- A number up to the range of an amount times an amount is in the range of a wide word. -/
theorem mul_lt_of_le {factor : ℕ} (h : factor ≤ 2 ^ 128) (x : Amount) : factor * x.val < 2 ^ 256 := by
  calc factor * x.val ≤ 2 ^ 128 * x.val := Nat.mul_le_mul_right _ h
    _ < 2 ^ 128 * 2 ^ 128 := Nat.mul_lt_mul_of_pos_left x.val_lt (by decide)
    _ = 2 ^ 256 := by decide

/-- Balances are held fixed without a refusal if none of them is less than its part of the invariant and
their sum fits. The quotient then never exceeds the invariant. -/
theorem exists_foldlM_holdFixed_eq_ok (hcount : 0 < count) (hlarge : count ≤ 2 ^ 128)
    (hpos : AllPositive fixed) (hpart : ∀ x ∈ fixed, d.val ≤ x.val * count) (sofar : Quadratic)
    (hsum : sofar.b.val + (fixed.map Word.val).sum < 2 ^ 256) (hc : sofar.c.val ≤ d.val) :
    ∃ held, fixed.foldlM (holdFixed count d) sofar = .ok held ∧
      held.b.val = sofar.b.val + (fixed.map Word.val).sum ∧ held.c.val ≤ d.val := by
  induction fixed generalizing sofar with
  | nil => exact ⟨sofar, rfl, rfl, hc⟩
  | cons x fixed ih =>
    rw [List.map_cons, List.sum_cons, ← Nat.add_assoc] at hsum ⊢
    have hx := hpos x List.mem_cons_self
    have hgrown : sofar.c.val * d.val < 2 ^ 256 := mul_lt_of_le (hc.trans d.val_lt.le) d
    have hproduct : count * x.val < 2 ^ 256 := mul_lt_of_le hlarge x
    let next : Quadratic := ⟨⟨sofar.b.val + x.val, by omega⟩,
      ⟨sofar.c.val * d.val / (count * x.val), (Nat.div_le_self _ _).trans_lt hgrown⟩⟩
    have hstep : holdFixed count d sofar x = .ok next := by
      simp only [holdFixed, Checked.bind_eq_ok_iff, ensure_eq_ok_iff, Word.add_eq_ok_iff,
        Word.times_eq_ok_iff, Word.mul_eq_ok_iff, Word.div_eq_ok_iff, Checked.pure_eq_ok_iff,
        exists_const]
      exact ⟨mt Word.eq_zero_iff.1 (Nat.ne_of_gt hx), next.b, rfl, ⟨count * x.val, hproduct⟩, rfl,
        ⟨_, hgrown⟩, rfl, next.c, ⟨Nat.mul_pos hcount hx, rfl⟩, rfl⟩
    have hquotient : next.c.val ≤ d.val := by
      apply Nat.div_le_of_le_mul
      rw [Nat.mul_comm count]
      exact Nat.mul_le_mul_right _ (hc.trans (hpart x List.mem_cons_self))
    obtain ⟨held, hheld, hb, hle⟩ := ih (fun y hy => hpos y (List.mem_cons_of_mem x hy))
      (fun y hy => hpart y (List.mem_cons_of_mem x hy)) next hsum hquotient
    rw [List.foldlM_cons]
    exact ⟨held, Checked.bind_eq_ok_iff.2 ⟨next, hstep, hheld⟩, hb, hle⟩

/-- The quadratic beside such balances is formed. -/
theorem exists_quadratic_eq_ok (hcount : 0 < count) (hlarge : count ≤ 2 ^ 128) (hann : 0 < ann.val)
    (hpos : AllPositive fixed) (hpart : ∀ x ∈ fixed, d.val ≤ x.val * count)
    (hsum : (fixed.map Word.val).sum + d.val < 2 ^ 256) :
    ∃ q, quadratic fixed count d ann = .ok q := by
  obtain ⟨held, hheld, hb, hc⟩ := exists_foldlM_holdFixed_eq_ok hcount hlarge hpos hpart
    ⟨0, d.widen⟩ (by rw [Word.val_zero]; omega) (Nat.le_refl _)
  rw [Word.val_zero, Nat.zero_add] at hb
  have hgrown : held.c.val * d.val < 2 ^ 256 := mul_lt_of_le (hc.trans d.val_lt.le) d
  have hdivisor : count * ann.val < 2 ^ 256 := mul_lt_of_le hlarge ann
  have hshare : d.val / ann.val ≤ d.val := Nat.div_le_self _ _
  refine ⟨⟨⟨held.b.val + d.val / ann.val, by omega⟩,
    ⟨held.c.val * d.val / (count * ann.val), (Nat.div_le_self _ _).trans_lt hgrown⟩⟩, ?_⟩
  simp only [quadratic, Checked.bind_eq_ok_iff, Word.add_eq_ok_iff, Word.times_eq_ok_iff,
    Word.mul_eq_ok_iff, Word.div_eq_ok_iff, Checked.pure_eq_ok_iff]
  exact ⟨held, hheld, ⟨count * ann.val, hdivisor⟩, rfl, ⟨_, hgrown⟩, rfl, _,
    ⟨Nat.mul_pos hcount hann, rfl⟩, ⟨d.val / ann.val, hshare.trans_lt d.widen.val_lt⟩, ⟨hann, rfl⟩, _,
    rfl, rfl⟩

end

section

variable {n before after before' after' : ℕ} {x raised d : Amount} {a : Amplification}

/-- The quadratic beside equal balances and a raised one does not depend on where that one stands. -/
theorem quadratic_equalButOne_eq {ann : Amount} (hcount : before + after + 2 = n)
    (hcount' : before' + after' + 2 = n) (hx : 0 < x.val) (hle : x.val ≤ raised.val)
    (hd : d.val = n * x.val) (hann : 0 < ann.val) :
    quadratic (equalButOne before after x raised) n d ann =
      quadratic (equalButOne before' after' x raised) n d ann := by
  have hfits := d.val_lt
  have hlarge : n ≤ d.val := hd ▸ Nat.le_mul_of_pos_right n hx
  have hformed (before after : ℕ) (hcount : before + after + 2 = n) :
      ∃ q : Quadratic, quadratic (equalButOne before after x raised) n d ann = .ok q ∧
        q.b.val + 2 * x.val = n * x.val + raised.val + d.val / ann.val ∧
        q.c.val = n * x.val * (n * x.val) / (raised.val * n) * (n * x.val) / (n * ann.val) := by
    have hsum : ((equalButOne before after x raised).map Word.val).sum + 2 * x.val =
        n * x.val + raised.val := sum_equalButOne hcount
    have hraised := raised.val_lt
    have hpart : ∀ y ∈ equalButOne before after x raised, d.val ≤ y.val * n := by
      intro y hy
      rw [hd, Nat.mul_comm]
      exact Nat.mul_le_mul_right n (le_of_mem_equalButOne hle hy)
    have hpos : AllPositive (equalButOne before after x raised) := fun y hy =>
      hx.trans_le (le_of_mem_equalButOne hle hy)
    obtain ⟨q, hq⟩ := exists_quadratic_eq_ok (by omega) (by omega) hann hpos hpart (by omega)
    obtain ⟨hb, hc⟩ := quadratic_eq_ok hq
    rw [constantTerm, hd, foldedProduct_equalButOne hcount hx] at hc
    rw [linearTerm] at hb
    exact ⟨q, hq, by omega, hc⟩
  obtain ⟨q, hq, hb, hc⟩ := hformed before after hcount
  obtain ⟨q', hq', hb', hc'⟩ := hformed before' after' hcount'
  have hvalues : q = q' := by
    obtain ⟨b, c⟩ := q
    obtain ⟨b', c'⟩ := q'
    obtain rfl : b = b' := Word.ext (by simp only at hb hb'; omega)
    obtain rfl : c = c' := Word.ext (hc.trans hc'.symm)
    rfl
  rw [hq, hq', hvalues]

/-- Nor does a solve. -/
theorem freeBalance_equalButOne_eq {solver : String} {bound : ℕ} (hcount : before + after + 2 = n)
    (hcount' : before' + after' + 2 = n) (hx : 0 < x.val) (hle : x.val ≤ raised.val)
    (hd : d.val = n * x.val) :
    freeBalance solver (equalButOne before after x raised) n d a bound =
      freeBalance solver (equalButOne before' after' x raised) n d a bound := by
  unfold freeBalance
  congr 1
  funext _
  cases hann : a.ann n with
  | error cause => rfl
  | ok ann =>
    have hpos : 0 < ann.val := by
      rw [Amplification.ann_eq_ok_iff.1 hann]
      exact Nat.mul_pos (by omega) a.coefficient_pos
    have hquadratic := quadratic_equalButOne_eq hcount hcount' hx hle hd hpos
    change (pure ann >>= fun ann => _) = (pure ann >>= fun ann => _)
    rw [pure_bind, pure_bind, hquadratic]

/-- What is solved for once one of equal balances is raised does not depend on which is raised and which
is solved for. -/
theorem outputBalance_replicate_eq {i j i' j' bound : ℕ} (hi : i < n) (hj : j < n) (hne : i ≠ j)
    (hi' : i' < n) (hj' : j' < n) (hne' : i' ≠ j') (hx : 0 < x.val) (hle : x.val ≤ raised.val)
    (hd : d.val = n * x.val) :
    outputBalance i j raised (List.replicate n x) d a bound =
      outputBalance i' j' raised (List.replicate n x) d a bound := by
  have hsolve {i j : ℕ} (hi : i < n) (hj : j < n) (hne : i ≠ j) :
      outputBalance i j raised (List.replicate n x) d a bound =
        freeBalance "solve_for_output" (((List.replicate n x).set i raised).eraseIdx j) n d a
          bound := by
    rw [outputBalance_eq_freeBalance (by rwa [List.length_replicate])
      (by rwa [List.length_replicate]) hne, List.length_replicate]
  obtain ⟨before, after, hcount, hfixed⟩ := exists_eraseIdx_set_replicate hi hj hne x raised
  obtain ⟨before', after', hcount', hfixed'⟩ :=
    exists_eraseIdx_set_replicate hi' hj' hne' x raised
  rw [hsolve hi hj hne, hsolve hi' hj' hne', hfixed, hfixed',
    freeBalance_equalButOne_eq hcount hcount' hx hle hd]

end

end StablePool.Curve
