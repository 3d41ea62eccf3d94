import Mathlib.Tactic.Ring
import StablePool.Proofs.Pool.Bookkeeping
import StablePool.Proofs.Pool.Liveness

/-!
# Proportional withdrawals in parts

A proportional withdrawal rounds each share down, so that what it leaves of a balance stands for no less
a token than before. The remainders favour the withdrawals that follow. Over a run of them what is paid
of an asset still does not exceed the share of the tokens burned in one withdrawal, and each part after
the first costs at most one unit. Only a run that burns the whole supply leaves nothing.

The runs are of proportional withdrawals alone. What other commands between them do is not stated here.
-/

namespace StablePool

/-- What `count` proportional withdrawals leave of a balance and of the supply, against what these were
before: no less of the balance than of the supply, by less than a unit for each withdrawal, and nothing
of the balance without a supply. -/
structure KeepsBacking (count balance₀ supply₀ balance supply : Nat) : Prop where
  mul_le : balance₀ * supply ≤ balance * supply₀
  le_add : balance * supply₀ ≤ balance₀ * supply + (count * supply₀ - 1)
  eq_zero : supply = 0 → balance = 0

namespace KeepsBacking

variable {count balance₀ supply₀ balance supply : Nat}

/-- No withdrawal leaves everything as it was. -/
protected theorem refl (hsome : 0 < supply) (balance : Nat) :
    KeepsBacking 0 balance supply balance supply :=
  ⟨Nat.le_refl _, Nat.le_add_right _ _, fun h => absurd h (Nat.ne_of_gt hsome)⟩

/-- One more withdrawal, whose share is rounded down. -/
theorem withdraw {amount share rest left : Nat} (h : KeepsBacking count balance₀ supply₀ balance supply)
    (hstart : 0 < supply₀) (hsome : 0 < supply) (hshare : share = balance * amount / supply)
    (hrest : rest + share = balance) (hleft : left + amount = supply) :
    KeepsBacking (count + 1) balance₀ supply₀ rest left := by
  have hfloor : share * supply ≤ balance * amount := hshare ▸ Nat.div_mul_le_self _ _
  have hceil : balance * amount < share * supply + supply := hshare ▸ Nat.lt_div_mul_add hsome
  have hbalance : rest * supply + share * supply = balance * left + balance * amount := by
    rw [← Nat.add_mul, ← Nat.mul_add, hrest, hleft]
  -- one withdrawal on its own, between exact values of the balance and of the supply
  have hkept : balance * left ≤ rest * supply := by omega
  have hlost : rest * supply + 1 ≤ balance * left + supply := by omega
  refine ⟨Nat.le_of_mul_le_mul_right ?_ hsome, ?_, ?_⟩
  · calc balance₀ * left * supply = balance₀ * supply * left := Nat.mul_right_comm ..
      _ ≤ balance * supply₀ * left := Nat.mul_le_mul_right left h.mul_le
      _ = balance * left * supply₀ := Nat.mul_right_comm ..
      _ ≤ rest * supply * supply₀ := Nat.mul_le_mul_right supply₀ hkept
      _ = rest * supply₀ * supply := Nat.mul_right_comm ..
  · have hbefore : balance * supply₀ ≤ balance₀ * supply + count * supply₀ :=
      Nat.le_trans h.le_add (Nat.add_le_add_left (Nat.sub_le _ _) _)
    have hless : left * (count * supply₀) ≤ supply * (count * supply₀) :=
      Nat.mul_le_mul_right _ (hleft ▸ Nat.le_add_right left amount)
    have hnext : rest * supply₀ < balance₀ * left + (count + 1) * supply₀ := by
      refine Nat.lt_of_mul_lt_mul_right (a := supply) ?_
      calc rest * supply₀ * supply = rest * supply * supply₀ := Nat.mul_right_comm ..
        _ < (balance * left + supply) * supply₀ := Nat.mul_lt_mul_of_pos_right hlost hstart
        _ = balance * supply₀ * left + supply * supply₀ := by ring
        _ ≤ (balance₀ * supply + count * supply₀) * left + supply * supply₀ :=
          Nat.add_le_add_right (Nat.mul_le_mul_right left hbefore) _
        _ = balance₀ * left * supply + left * (count * supply₀) + supply * supply₀ := by ring
        _ ≤ balance₀ * left * supply + supply * (count * supply₀) + supply * supply₀ := by omega
        _ = (balance₀ * left + (count + 1) * supply₀) * supply := by ring
    omega
  · rintro rfl
    obtain rfl : amount = supply := by omega
    rw [Nat.mul_div_cancel _ hsome] at hshare
    omega

/-- What is paid by the withdrawals that keep the backing, against one withdrawal of the same tokens. -/
theorem paid_bounds {paid burned : Nat} (h : KeepsBacking count balance₀ supply₀ balance supply)
    (hsome : 0 < count) (hstart : 0 < supply₀) (hpaid : balance + paid = balance₀)
    (hburned : supply + burned = supply₀) :
    balance₀ * burned / supply₀ ≤ paid + (count - 1) ∧ paid ≤ balance₀ * burned / supply₀ := by
  have hwhole : balance * supply₀ + paid * supply₀ = balance₀ * supply + balance₀ * burned := by
    rw [← Nat.add_mul, ← Nat.mul_add, hpaid, hburned]
  have hunits : 0 < count * supply₀ := Nat.mul_pos hsome hstart
  have hmul := h.mul_le
  have hadd := h.le_add
  refine ⟨?_, (Nat.le_div_iff_mul_le hstart).2 (by omega)⟩
  have hlt : balance₀ * burned / supply₀ < paid + count := by
    rw [Nat.div_lt_iff_lt_mul hstart, Nat.add_mul]
    omega
  omega

end KeepsBacking

/-- Requests for proportional withdrawals of some amounts of tokens. -/
def withdrawals (amounts : List Amount) : List Request :=
  amounts.map fun amount => .command (.withdraw amount)

theorem withdrawals_cons (amount : Amount) (rest : List Amount) :
    withdrawals (amount :: rest) = .command (.withdraw amount) :: withdrawals rest := rfl

theorem withdrawals_append (first rest : List Amount) :
    withdrawals (first ++ rest) = withdrawals first ++ withdrawals rest := List.map_append

namespace Pool

/-- A history goes on from the pool that its first request leads to. -/
theorem after_cons (p : Pool) (request : Request) (rest : List Request) :
    p.after (request :: rest) = (p.respond request).2.after rest := rfl

/-- A history goes on from the pool that its first part leads to. -/
theorem after_append (p : Pool) (first rest : List Request) :
    p.after (first ++ rest) = (p.after first).after rest := List.foldl_append

/-- No request of the history is refused. -/
def Serves (p : Pool) (requests : List Request) : Prop :=
  ∀ served ∈ p.run requests, served.1.result.isOk

instance (p : Pool) (requests : List Request) : Decidable (p.Serves requests) :=
  inferInstanceAs (Decidable (∀ served ∈ p.run requests, served.1.result.isOk))

/-- A history is served if its first part is, and the rest by the pool that this leads to. -/
theorem serves_append {p : Pool} {first rest : List Request} :
    p.Serves (first ++ rest) ↔ p.Serves first ∧ (p.after first).Serves rest := by
  induction first generalizing p with
  | nil => simp [Serves, run, after]
  | cons request first ih =>
    have htail := ih (p := (p.respond request).2)
    simp only [Serves, run, List.cons_append, List.forall_mem_cons, after, List.foldl_cons] at htail ⊢
    rw [htail, and_assoc]

section

variable {p after : Pool} {amount : Amount} {k : Nat} {asset : Asset}

/-- Tokens that were issued can be burned for their share of every asset. -/
theorem exists_withdraw_eq_ok (hsome : p.tokenSupply ≠ 0) (hle : amount.val ≤ p.tokenSupply.val) :
    ∃ shares after, (p.withdraw amount).result = .ok (shares, after) := by
  have hpos : 0 < p.tokenSupply.val := Nat.pos_of_ne_zero (mt Word.eq_zero_iff.2 hsome)
  have hless (balance : Nat) : balance * amount.val / p.tokenSupply.val ≤ balance :=
    Nat.div_le_of_le_mul (Nat.mul_comm .. ▸ Nat.mul_le_mul_right balance hle)
  obtain ⟨tokenSupply, hsupply⟩ := Word.exists_sub_eq_ok "burn exceeds lp supply" hle
  obtain ⟨shares, hshares⟩ : ∃ shares, p.sharesOf amount = .ok shares :=
    Checked.exists_mapM_eq_ok fun balance _ =>
      ⟨⟨_, Nat.lt_of_le_of_lt (hless balance.val) balance.val_lt⟩, Word.mulDiv_eq_ok_iff.2 ⟨hpos, rfl⟩⟩
  obtain ⟨assets, hassets⟩ : ∃ assets, p.payShares shares = .ok assets := by
    apply Checked.exists_mapM_eq_ok
    rintro ⟨asset, share⟩ hmem
    obtain ⟨k, hk⟩ := List.mem_iff_getElem?.1 hmem
    obtain ⟨hasset, hshare⟩ := List.getElem?_zip_eq_some.1 hk
    obtain ⟨share', hshare', hval⟩ := exists_share_of_sharesOf_eq_ok hshares hasset
    obtain rfl : share' = share := Option.some.inj (hshare'.symm.trans hshare)
    obtain ⟨balance, hbalance⟩ :=
      Word.exists_sub_eq_ok "proportional withdrawal" (hval.trans_le (hless asset.balance.val))
    exact ⟨_, Checked.bind_eq_ok_iff.2 ⟨balance, hbalance, rfl⟩⟩
  refine ⟨shares, { p with assets, tokenSupply }, ?_⟩
  simp only [withdraw_eq, Logged.result_bind, Logged.result_lift, Logged.result_report,
    Logged.result_pure, Checked.bind_eq_ok_iff, ensure_eq_ok_iff, exists_const]
  exact ⟨hsome, tokenSupply, hsupply, shares, hshares, assets, hassets, trivial, rfl⟩

/-- The first withdrawal of a run that is served succeeds, and the rest is served by the pool after it. -/
theorem exists_withdraw_of_serves_cons {rest : List Amount}
    (h : p.Serves (withdrawals (amount :: rest))) :
    ∃ shares after, (p.withdraw amount).result = .ok (shares, after) ∧
      (p.respond (.command (.withdraw amount))).1.result = .ok (.amounts shares) ∧
      (p.respond (.command (.withdraw amount))).2 = after ∧ after.Serves (withdrawals rest) := by
  obtain ⟨hfirst, hrest⟩ := List.forall_mem_cons.1 h
  cases hresult : (p.perform (.withdraw amount)).result with
  | error cause =>
    rw [respond_command_of_error hresult] at hfirst
    cases hfirst
  | ok yielded =>
    obtain ⟨reply, after⟩ := yielded
    obtain ⟨shares, hshares, rfl⟩ := exists_of_map_reply_eq_ok hresult
    rw [respond_command_of_ok hresult] at hrest ⊢
    exact ⟨shares, after, hshares, rfl, rfl, hrest⟩

/-- A run of withdrawals that is served burns all of its tokens. -/
theorem tokenSupply_after_withdrawals {amounts : List Amount} (h : p.Serves (withdrawals amounts)) :
    (p.after (withdrawals amounts)).tokenSupply.val + (amounts.map Word.val).sum =
      p.tokenSupply.val := by
  induction amounts generalizing p with
  | nil => rfl
  | cons amount rest ih =>
    obtain ⟨shares, middle, hwithdraw, -, hmiddle, hrest⟩ := exists_withdraw_of_serves_cons h
    obtain ⟨tokenSupply, assets, -, hsupply, -, -, rfl⟩ := withdraw_eq_ok hwithdraw
    have hothers : _ + _ = tokenSupply.val := ih hrest
    rw [withdrawals_cons, after_cons, hmiddle, List.map_cons, List.sum_cons]
    omega

/-- A run of withdrawals that is served takes what it pays off the balance of each asset, and keeps the
backing that an earlier pool had. -/
theorem keepsBacking_after_withdrawals {amounts : List Amount} (h : p.Serves (withdrawals amounts))
    (hasset : p.assets[k]? = some asset) {count balance₀ supply₀ : Nat} (hstart : 0 < supply₀)
    (hbacked : KeepsBacking count balance₀ supply₀ asset.balance.val p.tokenSupply.val) :
    ∃ balance : Amount,
      (p.after (withdrawals amounts)).assets[k]? = some { asset with balance } ∧
      balance.val + p.tally (Command.paidOut k) (withdrawals amounts) = asset.balance.val ∧
      KeepsBacking (count + amounts.length) balance₀ supply₀ balance.val
        (p.after (withdrawals amounts)).tokenSupply.val := by
  induction amounts generalizing p asset count with
  | nil => exact ⟨asset.balance, hasset, rfl, hbacked⟩
  | cons amount rest ih =>
    obtain ⟨shares, middle, hwithdraw, hreply, hmiddle, hrest⟩ := exists_withdraw_of_serves_cons h
    obtain ⟨share, balance, hshare, hval, hleft, hsum⟩ :=
      getElem?_of_withdraw_eq_ok hwithdraw hasset
    obtain ⟨tokenSupply, assets, hsome, hsupply, -, -, rfl⟩ := withdraw_eq_ok hwithdraw
    have hpos : 0 < p.tokenSupply.val := Nat.pos_of_ne_zero (mt Word.eq_zero_iff.2 hsome)
    obtain ⟨last, hlast, hpaid, hkept⟩ :=
      ih hrest hleft (hbacked.withdraw hstart hpos hval hsum hsupply)
    rw [withdrawals_cons, after_cons, hmiddle]
    refine ⟨last, hlast, ?_, ?_⟩
    · have hpaid : last.val + _ = balance.val := hpaid
      rw [tally, hreply, hmiddle, counted, Command.paidOut, amountAt_of_getElem? hshare]
      omega
    · rw [List.length_cons, ← Nat.add_assoc, Nat.add_right_comm]
      exact hkept

/-- Only a pool with tokens serves a run of withdrawals. -/
theorem tokenSupply_pos_of_serves {amounts : List Amount} (hsome : amounts ≠ [])
    (h : p.Serves (withdrawals amounts)) : 0 < p.tokenSupply.val := by
  obtain ⟨amount, rest, rfl⟩ := List.exists_cons_of_ne_nil hsome
  obtain ⟨shares, middle, hwithdraw, -⟩ := exists_withdraw_of_serves_cons h
  obtain ⟨tokenSupply, assets, hne, -⟩ := withdraw_eq_ok hwithdraw
  exact Nat.pos_of_ne_zero (mt Word.eq_zero_iff.2 hne)

/-- Over a part of a run of withdrawals no balance falls by more than the supply, compared as ratios. -/
theorem backing_le_of_serves {amounts : List Amount} (h : p.Serves (withdrawals amounts))
    (hasset : p.assets[k]? = some asset) :
    amountAt p.balances k * (p.after (withdrawals amounts)).tokenSupply.val ≤
      amountAt (p.after (withdrawals amounts)).balances k * p.tokenSupply.val := by
  by_cases hsome : amounts = []
  · rw [hsome]
    exact Nat.le_refl _
  · have hstart := tokenSupply_pos_of_serves hsome h
    obtain ⟨balance, hafter, -, hkept⟩ :=
      keepsBacking_after_withdrawals h hasset hstart (.refl hstart asset.balance.val)
    rw [amountAt_of_getElem? (getElem?_balances hasset), amountAt_of_getElem? (getElem?_balances hafter)]
    exact hkept.mul_le

/-- A run of withdrawals that is served and burns the whole supply leaves nothing of any asset. -/
theorem balance_eq_zero_of_serves {amounts : List Amount} (hsome : amounts ≠ [])
    (h : p.Serves (withdrawals amounts)) (hall : (amounts.map Word.val).sum = p.tokenSupply.val) :
    (p.after (withdrawals amounts)).tokenSupply = 0 ∧
      ∀ balance ∈ (p.after (withdrawals amounts)).balances, balance = 0 := by
  have hstart := tokenSupply_pos_of_serves hsome h
  have hburned := tokenSupply_after_withdrawals h
  have hnone : (p.after (withdrawals amounts)).tokenSupply.val = 0 := by omega
  refine ⟨Word.eq_zero_iff.2 hnone, List.forall_mem_map.2 ?_⟩
  refine forall_mem_of_scales_eq (scales_after p (withdrawals amounts)) fun k asset hasset => ?_
  obtain ⟨balance, hafter, -, hkept⟩ :=
    keepsBacking_after_withdrawals h hasset hstart (.refl hstart asset.balance.val)
  exact ⟨_, hafter, Word.eq_zero_iff.2 (hkept.eq_zero hnone)⟩

/-- The whole supply can be burned, which pays out the balances and leaves nothing. -/
theorem exists_withdraw_tokenSupply (hsome : p.tokenSupply ≠ 0) :
    ∃ last, (p.withdraw p.tokenSupply).result = .ok (p.balances, last) ∧ last.tokenSupply = 0 ∧
      ∀ balance ∈ last.balances, balance = 0 := by
  have hpos : 0 < p.tokenSupply.val := Nat.pos_of_ne_zero (mt Word.eq_zero_iff.2 hsome)
  obtain ⟨shares, last, hwithdraw⟩ := exists_withdraw_eq_ok hsome (Nat.le_refl p.tokenSupply.val)
  have hwhole (balance : Amount) :
      Word.mulDiv balance p.tokenSupply p.tokenSupply "proportional share" = .ok balance :=
    Word.mulDiv_eq_ok_iff.2 ⟨hpos, (Nat.mul_div_cancel _ hpos).symm⟩
  obtain ⟨tokenSupply, assets, -, hsupply, hshares, -, hlast⟩ := withdraw_eq_ok hwithdraw
  obtain rfl : p.balances = shares := by
    have hsame := Checked.map_eq_of_mapM_eq_ok id id
      (fun balance share h => (Except.ok.inj ((hwhole balance).symm.trans h)).symm) hshares
    rwa [List.map_id, List.map_id, eq_comm] at hsame
  refine ⟨last, hwithdraw, ?_, List.forall_mem_map.2 ?_⟩
  · rw [hlast, Word.eq_zero_iff]
    change tokenSupply.val = 0
    omega
  · refine forall_mem_of_scales_eq (scales_of_withdraw hwithdraw) fun k asset hasset => ?_
    obtain ⟨share, balance, -, hval, hafter, hsum⟩ := getElem?_of_withdraw_eq_ok hwithdraw hasset
    rw [Nat.mul_div_cancel _ hpos] at hval
    have hnone : balance.val = 0 := by omega
    exact ⟨_, hafter, Word.eq_zero_iff.2 hnone⟩

end

/-- Proportional withdrawals in parts gain nothing. Over a run of withdrawals that is served, what is paid
of an asset is at most the share of the tokens burned, rounded down once, and less than that by at most
one unit for each withdrawal after the first; and over no part of the run does the balance fall by more
than the supply, compared as ratios. A run that burns the whole supply leaves nothing, and the whole
supply can always be burned. -/
theorem parted_withdrawals (p : Pool) :
    (∀ amounts : List Amount, amounts ≠ [] → p.Serves (withdrawals amounts) →
      (∀ (k : Nat) (asset : Asset), p.assets[k]? = some asset →
        (asset.balance.val * (amounts.map Word.val).sum / p.tokenSupply.val ≤
            p.tally (Command.paidOut k) (withdrawals amounts) + (amounts.length - 1) ∧
          p.tally (Command.paidOut k) (withdrawals amounts) ≤
            asset.balance.val * (amounts.map Word.val).sum / p.tokenSupply.val) ∧
        ∀ earlier between later, amounts = earlier ++ between ++ later →
          amountAt (p.after (withdrawals earlier)).balances k *
              (p.after (withdrawals (earlier ++ between))).tokenSupply.val ≤
            amountAt (p.after (withdrawals (earlier ++ between))).balances k *
              (p.after (withdrawals earlier)).tokenSupply.val) ∧
      ((amounts.map Word.val).sum = p.tokenSupply.val →
        (p.after (withdrawals amounts)).tokenSupply = 0 ∧
          ∀ balance ∈ (p.after (withdrawals amounts)).balances, balance = 0)) ∧
    (p.tokenSupply ≠ 0 → ∃ last, (p.withdraw p.tokenSupply).result = .ok (p.balances, last) ∧
      last.tokenSupply = 0 ∧ ∀ balance ∈ last.balances, balance = 0) := by
  refine ⟨fun amounts hsome h => ⟨fun k asset hasset => ⟨?_, ?_⟩, ?_⟩, exists_withdraw_tokenSupply⟩
  · have hstart := tokenSupply_pos_of_serves hsome h
    have hburned := tokenSupply_after_withdrawals h
    obtain ⟨balance, -, hpaid, hkept⟩ :=
      keepsBacking_after_withdrawals h hasset hstart (.refl hstart asset.balance.val)
    rw [Nat.zero_add] at hkept
    exact hkept.paid_bounds (List.length_pos_of_ne_nil hsome) hstart hpaid hburned
  · rintro earlier between later rfl
    rw [withdrawals_append, withdrawals_append, serves_append, serves_append] at h
    have hearlier := h.1.1
    obtain rfl | hany := eq_or_ne earlier []
    · exact backing_le_of_serves h.1.2 hasset
    · have hstart := tokenSupply_pos_of_serves hany hearlier
      obtain ⟨balance, hmiddle, -, -⟩ :=
        keepsBacking_after_withdrawals hearlier hasset hstart (.refl hstart asset.balance.val)
      rw [withdrawals_append, after_append]
      exact backing_le_of_serves h.1.2 hmiddle
  · exact balance_eq_zero_of_serves hsome h

/-- Three tokens out of nine, burned one by one, pay nothing of an asset of which burning them at once pays
two units. Burned in two parts, the whole supply leaves nothing. -/
theorem parted_withdrawals_of_few_tokens :
    let p : Pool := {
      terms := {
        amplification := ⟨.lit 200, by decide⟩
        fee := ⟨.lit 4⟩
        adminFee := ⟨.lit 5000⟩
        maxIterations := Curve.defaultBound
        fee_isValid := by decide
        adminFee_isValid := by decide }
      assets := [⟨.lit 6, 0, .one⟩, ⟨.lit 1000, .lit 3, .one⟩]
      tokenSupply := .lit 9 }
    let parts : List Amount := [.lit 1, .lit 1, .lit 1]
    let whole : List Amount := [.lit 7, .lit 2]
    p.Serves (withdrawals parts) ∧ 6 * 3 / 9 = 2 ∧ p.tally (Command.paidOut 0) (withdrawals parts) = 0 ∧
      6 * 3 / 9 ≤ p.tally (Command.paidOut 0) (withdrawals parts) + 2 ∧
      amountAt p.balances 1 * (p.after (withdrawals parts)).tokenSupply.val ≤
        amountAt (p.after (withdrawals parts)).balances 1 * p.tokenSupply.val ∧
      p.Serves (withdrawals whole) ∧ (p.after (withdrawals whole)).tokenSupply = 0 ∧
      (∀ balance ∈ (p.after (withdrawals whole)).balances, balance = 0) ∧
      ∃ last, (p.withdraw (.lit 9)).result = .ok (p.balances, last) := by
  intro p parts whole
  have hparts : p.Serves (withdrawals parts) := by decide +kernel
  have hwhole : p.Serves (withdrawals whole) := by decide +kernel
  have hpaid : p.tally (Command.paidOut 0) (withdrawals parts) = 0 := by decide +kernel
  obtain ⟨hruns, hburned⟩ := parted_withdrawals p
  obtain ⟨hassets, -⟩ := hruns parts (by decide) hparts
  obtain ⟨hnone, hleft⟩ := (hruns whole (by decide) hwhole).2 rfl
  obtain ⟨last, hlast, -⟩ := hburned (by decide)
  exact ⟨hparts, rfl, hpaid, (hassets 0 _ rfl).1.1, (hassets 1 _ rfl).2 [] parts [] rfl, hwhole, hnone,
    hleft, last, hlast⟩

end Pool

end StablePool
