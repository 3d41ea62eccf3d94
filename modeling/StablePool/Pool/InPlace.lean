import StablePool.Pool.Basic

/-!
# Commands that work in place

A command works on a pool in place. It reads the pool and writes to it step by step, and it leaves a
pool whether it succeeds or is refused: what was written before a refusal stays written. The view of
the outcome pairs the value of a success with the pool that was left.

Nothing here keeps a command from writing before its last check. That none does is a theorem about
the commands.
-/

namespace StablePool

/-- A computation on a pool in place: what it answers, and the pool that it leaves. -/
def InPlace (α : Type) := Pool → Logged α × Pool

namespace InPlace

instance : Monad InPlace where
  pure a := fun p => (pure a, p)
  bind first next := fun p =>
    match first p with
    | (⟨log, .ok a⟩, written) =>
      let (rest, left) := next a written
      (⟨log ++ rest.log, rest.result⟩, left)
    | (⟨log, .error cause⟩, written) => (⟨log, .error cause⟩, written)

/-- What is computed beside the pool leaves it alone. -/
instance : MonadLift Logged InPlace := ⟨fun logged p => (logged, p)⟩

/-- Read the pool. -/
def current : InPlace Pool := fun p => (pure p, p)

/-- Write to the pool. -/
def write (change : Pool → Pool) : InPlace Unit := fun p => (pure (), change p)

variable {α β : Type}

/-- A sequence goes on with the value of its first part, on the pool that the first part leaves. -/
theorem bind_of_ok {first : InPlace α} {p written : Pool} {log : List Event} {a : α}
    (h : first p = (⟨log, .ok a⟩, written)) (next : α → InPlace β) :
    (first >>= next) p = (⟨log ++ (next a written).1.log, (next a written).1.result⟩,
      (next a written).2) := by
  simp only [bind, h]

/-- A refusal ends a sequence, and what was written until then stays. -/
theorem bind_of_error {first : InPlace α} {p written : Pool} {log : List Event} {cause : Error}
    (h : first p = (⟨log, .error cause⟩, written)) (next : α → InPlace β) :
    (first >>= next) p = (⟨log, .error cause⟩, written) := by
  simp only [bind, h]

/-- What a computation comes to: its value together with the pool that it leaves, or its refusal. The
pool that a refusal leaves is not in this view. -/
def outcome (m : InPlace α) (p : Pool) : Logged (α × Pool) :=
  let (answer, left) := m p
  ⟨answer.log, answer.result.map fun a => (a, left)⟩

/-- A success comes to its value and the pool that it leaves. -/
theorem outcome_of_ok {m : InPlace α} {p left : Pool} {log : List Event} {a : α}
    (h : m p = (⟨log, .ok a⟩, left)) : m.outcome p = ⟨log, .ok (a, left)⟩ := by
  simp only [outcome, h]
  rfl

/-- A refusal comes to its cause. -/
theorem outcome_of_error {m : InPlace α} {p left : Pool} {log : List Event} {cause : Error}
    (h : m p = (⟨log, .error cause⟩, left)) : m.outcome p = ⟨log, .error cause⟩ := by
  simp only [outcome, h]
  rfl

-- The next lemmas unfold first, so that simp does not use them as definitional equations: the kernel
-- would have to run the steps of a command to check those.

@[simp] theorem outcome_pure (a : α) (p : Pool) : (pure a : InPlace α).outcome p = pure (a, p) := by
  unfold outcome
  rfl

@[simp] theorem outcome_current_bind (next : Pool → InPlace β) (p : Pool) :
    (current >>= next).outcome p = (next p).outcome p := by
  unfold outcome
  rfl

@[simp] theorem outcome_write_bind (change : Pool → Pool) (next : Unit → InPlace β) (p : Pool) :
    (write change >>= next).outcome p = (next ()).outcome (change p) := by
  unfold outcome
  rfl

@[simp] theorem outcome_logged_bind (logged : Logged α) (next : α → InPlace β) (p : Pool) :
    (liftM logged >>= next).outcome p = logged >>= fun a => (next a).outcome p := by
  obtain ⟨log, cause | a⟩ := logged <;> rfl

@[simp] theorem outcome_checked_bind (checked : Checked α) (next : α → InPlace β) (p : Pool) :
    (liftM checked >>= next).outcome p =
      (liftM checked : Logged α) >>= fun a => (next a).outcome p :=
  outcome_logged_bind (liftM checked) next p

/-- A function of the value leaves the pool to the computation. -/
theorem outcome_map (f : α → β) (m : InPlace α) (p : Pool) :
    (f <$> m).outcome p = Prod.map f id <$> m.outcome p := by
  change (m >>= fun a => pure (f a)).outcome p = _
  rcases hp : m p with ⟨⟨log, cause | a⟩, left⟩
  · rw [outcome_of_error (bind_of_error hp _), outcome_of_error hp]
    rfl
  · rw [outcome_of_ok (bind_of_ok hp _), outcome_of_ok hp]
    rfl

end InPlace

end StablePool
