import StablePool.Pool.Request

/-!
# Commands write only after their last check

A computation in place is atomic if it leaves the pool as it was whenever it is refused. It is so if it
reads first, and goes on to write only when nothing can refuse it any more. Every command is of that
shape: it works out all it is going to write, and only then writes it.

So a refused command changes nothing, and a command that succeeds leaves the pool it comes to.
-/

namespace StablePool

namespace InPlace

variable {α β : Type}

/-- The pool stays as it was, whatever the answer. -/
def ReadsOnly (m : InPlace α) : Prop := ∀ p, (m p).2 = p

/-- The answer is never a refusal. -/
def Succeeds (m : InPlace α) : Prop := ∀ p, ∃ log a left, m p = (⟨log, .ok a⟩, left)

/-- A refusal leaves the pool as it was. -/
def Atomic (m : InPlace α) : Prop := ∀ p log cause left, m p = (⟨log, .error cause⟩, left) → left = p

/-- Reading the pool does not write to it. -/
theorem readsOnly_current : current.ReadsOnly := fun _ => rfl

/-- What is computed beside the pool does not write to it. -/
theorem readsOnly_logged (logged : Logged α) : (liftM logged : InPlace α).ReadsOnly := fun _ => rfl

/-- A check does not write to the pool. -/
theorem readsOnly_checked (checked : Checked α) : (liftM checked : InPlace α).ReadsOnly :=
  fun _ => rfl

/-- A value is no refusal. -/
theorem succeeds_pure (a : α) : (pure a : InPlace α).Succeeds := fun p => ⟨[], a, p, rfl⟩

/-- Writing is never refused. -/
theorem succeeds_write (change : Pool → Pool) : (write change).Succeeds :=
  fun p => ⟨[], (), change p, rfl⟩

/-- Reporting is never refused. -/
theorem succeeds_report (event : Event) : (liftM (Logged.report event) : InPlace Unit).Succeeds :=
  fun p => ⟨[event], (), p, rfl⟩

/-- Steps that are never refused make a computation that never is. -/
theorem Succeeds.bind {first : InPlace α} {next : α → InPlace β} (hfirst : first.Succeeds)
    (hnext : ∀ a, (next a).Succeeds) : (first >>= next).Succeeds := by
  intro p
  obtain ⟨log, a, written, hp⟩ := hfirst p
  obtain ⟨rest, b, left, hwritten⟩ := hnext a written
  exact ⟨log ++ rest, b, left, by rw [bind_of_ok hp, hwritten]⟩

/-- What is never refused is atomic. -/
theorem Succeeds.atomic {m : InPlace α} (h : m.Succeeds) : m.Atomic := by
  intro p log cause left hrefused
  obtain ⟨_, _, _, hp⟩ := h p
  cases hp.symm.trans hrefused

/-- A computation that begins by reading is atomic if all that can follow is. -/
theorem ReadsOnly.bind {first : InPlace α} {next : α → InPlace β} (hfirst : first.ReadsOnly)
    (hnext : ∀ a, (next a).Atomic) : (first >>= next).Atomic := by
  intro p log cause left hrefused
  rcases hp : first p with ⟨⟨begun, early | a⟩, read⟩
  all_goals obtain rfl : read = p := by rw [← hfirst p, hp]
  · rw [bind_of_error hp] at hrefused
    exact (Prod.mk.inj hrefused).2.symm
  · rw [bind_of_ok hp] at hrefused
    obtain ⟨hanswer, rfl⟩ := Prod.mk.inj hrefused
    obtain ⟨-, hresult⟩ := Logged.mk.inj hanswer
    exact hnext a read _ cause _ (by rw [← hresult])

/-- A write before a refusal is atomic only if it changes nothing. -/
theorem atomic_write_refuse_iff (change : Pool → Pool) (cause : Error) :
    (do
      write change
      Logged.refuse cause : InPlace α).Atomic ↔ ∀ p, change p = p := by
  constructor
  · intro h p
    exact h p [] cause (change p) rfl
  · intro h p log cause' left hrefused
    obtain ⟨-, rfl⟩ := Prod.mk.inj hrefused
    exact h p

/-- A function of the value does not write. -/
theorem Atomic.map {m : InPlace α} (h : m.Atomic) (f : α → β) : (f <$> m).Atomic := by
  intro p log cause left hrefused
  change (m >>= fun a => pure (f a)) p = _ at hrefused
  rcases hp : m p with ⟨⟨begun, early | a⟩, written⟩
  · rw [bind_of_error hp] at hrefused
    obtain ⟨-, rfl⟩ := Prod.mk.inj hrefused
    exact h p begun early written hp
  · rw [bind_of_ok hp] at hrefused
    cases hrefused

/-- How every command ends: two writes and a report, none of which is refused. -/
theorem atomic_commit (change change' : Pool → Pool) (event : Event) (a : α) :
    (do
      write change
      write change'
      Logged.report event
      return a : InPlace α).Atomic :=
  ((succeeds_write change).bind fun _ => (succeeds_write change').bind fun _ =>
    (succeeds_report event).bind fun _ => succeeds_pure a).atomic

/-- An exchange writes once the output is found to be enough. -/
theorem atomic_swapAtLeast (i j : Nat) (dx minimum : Amount) :
    (swapAtLeast i j dx minimum).Atomic := by
  refine readsOnly_current.bind fun p => ?_
  refine (readsOnly_logged (p.quoteSwap i j dx)).bind fun q => ?_
  refine (readsOnly_checked _).bind fun _ => ?_
  exact atomic_commit _ _ _ _

/-- A deposit writes once the tokens are found to be enough and every sum to fit. -/
theorem atomic_depositAtLeast (amounts : List Amount) (minimum : Amount) :
    (depositAtLeast amounts minimum).Atomic := by
  refine readsOnly_current.bind fun p => ?_
  refine (readsOnly_logged (p.quoteDeposit amounts)).bind fun q => ?_
  refine (readsOnly_checked _).bind fun _ => ?_
  refine (readsOnly_checked _).bind fun _ => ?_
  refine (readsOnly_checked _).bind fun tokenSupply => ?_
  refine (readsOnly_checked (p.settleAssets q.entries)).bind fun assets => ?_
  exact atomic_commit _ _ _ _

/-- A proportional withdrawal writes once every share is taken off. -/
theorem atomic_withdraw (amount : Amount) : (withdraw amount).Atomic := by
  refine readsOnly_current.bind fun p => ?_
  refine (readsOnly_checked _).bind fun _ => ?_
  refine (readsOnly_checked _).bind fun tokenSupply => ?_
  refine (readsOnly_checked (p.sharesOf amount)).bind fun shares => ?_
  refine (readsOnly_checked (p.payShares shares)).bind fun assets => ?_
  exact atomic_commit _ _ _ _

/-- A withdrawal of chosen amounts writes once the tokens are burned and every sum is found to fit. -/
theorem atomic_withdrawAmounts (amounts : List Amount) : (withdrawAmounts amounts).Atomic := by
  refine readsOnly_current.bind fun p => ?_
  refine (readsOnly_logged (p.quoteWithdrawAmounts amounts)).bind fun q => ?_
  refine (readsOnly_checked _).bind fun tokenSupply => ?_
  refine (readsOnly_checked (p.settleAssets q.entries)).bind fun assets => ?_
  exact atomic_commit _ _ _ _

/-- A withdrawal of one asset writes once the payout and the administrator's share are taken off. -/
theorem atomic_withdrawAsset (tokenAmount : Amount) (i : Nat) (minimum : Amount) :
    (withdrawAsset tokenAmount i minimum).Atomic := by
  refine readsOnly_current.bind fun p => ?_
  refine (readsOnly_logged (p.quoteWithdrawAsset tokenAmount i)).bind fun q => ?_
  refine (readsOnly_checked _).bind fun _ => ?_
  refine (readsOnly_checked _).bind fun adminFee => ?_
  refine (readsOnly_checked (entry p.assets i)).bind fun asset => ?_
  refine (readsOnly_checked _).bind fun rest => ?_
  refine (readsOnly_checked _).bind fun balance => ?_
  refine (readsOnly_checked _).bind fun tokenSupply => ?_
  refine (readsOnly_checked _).bind fun adminBalance => ?_
  exact atomic_commit _ _ _ _

/-- Every command is atomic. -/
theorem atomic_carryOut (c : Command) : (carryOut c).Atomic := by
  cases c with
  | swap i j dx => exact (atomic_swapAtLeast i j dx 0).map _
  | swapAtLeast i j dx minimum => exact (atomic_swapAtLeast i j dx minimum).map _
  | deposit amounts => exact (atomic_depositAtLeast amounts 0).map _
  | depositAtLeast amounts minimum => exact (atomic_depositAtLeast amounts minimum).map _
  | withdraw amount => exact (atomic_withdraw amount).map _
  | withdrawAmounts amounts => exact (atomic_withdrawAmounts amounts).map _
  | withdrawAsset tokenAmount i minimum => exact (atomic_withdrawAsset tokenAmount i minimum).map _

/-- Every request is atomic: a query does not write, whatever becomes of it. -/
theorem atomic_serve (request : Request) : (serve request).Atomic := by
  cases request with
  | query q =>
    intro p log cause left hrefused
    exact (Prod.mk.inj hrefused).2.symm
  | command c => exact atomic_carryOut c

/-- A computation that comes to a value answers with it and leaves the pool that goes with it. -/
theorem apply_of_outcome_eq_ok {m : InPlace α} {p left : Pool} {a : α}
    (h : (m.outcome p).result = .ok (a, left)) : m p = (⟨(m.outcome p).log, .ok a⟩, left) := by
  rcases hp : m p with ⟨⟨log, cause | a⟩, left⟩
  · rw [outcome_of_error hp] at h
    cases h
  · rw [outcome_of_ok hp] at h ⊢
    cases h
    rfl

/-- An atomic computation that comes to a refusal answers with it and leaves the pool as it was. -/
theorem Atomic.apply_of_outcome_eq_error {m : InPlace α} (hm : m.Atomic) {p : Pool} {cause : Error}
    (h : (m.outcome p).result = .error cause) :
    m p = (⟨(m.outcome p).log, .error cause⟩, p) := by
  rcases hp : m p with ⟨⟨log, refused | a⟩, left⟩
  · rw [outcome_of_error hp] at h ⊢
    obtain rfl := hm p log refused left hp
    cases h
    rfl
  · rw [outcome_of_ok hp] at h
    cases h

end InPlace

namespace Pool

variable {p after : Pool} {c : Command} {cause : Error}

/-- A command that is refused leaves the pool as it was. -/
theorem respond_command_of_error (h : (p.perform c).result = .error cause) :
    p.respond (.command c) = (⟨(p.perform c).log, .error cause⟩, p) := by
  rw [← InPlace.outcome_carryOut] at h ⊢
  exact (InPlace.atomic_carryOut c).apply_of_outcome_eq_error h

/-- A command that succeeds leads to the pool it comes to. -/
theorem respond_command_of_ok {reply : Reply} (h : (p.perform c).result = .ok (reply, after)) :
    p.respond (.command c) = (⟨(p.perform c).log, .ok reply⟩, after) := by
  rw [← InPlace.outcome_carryOut] at h ⊢
  exact InPlace.apply_of_outcome_eq_ok h

/-- A request that is refused leaves the pool as it was. -/
theorem respond_of_error {request : Request}
    (h : (p.respond request).1.result = .error cause) : (p.respond request).2 = p :=
  InPlace.atomic_serve request p (p.respond request).1.log cause (p.respond request).2 (by
    rw [← h]
    rfl)

end Pool

end StablePool
