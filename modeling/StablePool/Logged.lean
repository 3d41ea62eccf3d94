import StablePool.Event

/-!
# Checked computations that report events

A logged computation has two parts: the events it reported, oldest first, and its result. A
refusal keeps the events that came before it and ends the computation. The lemmas split both parts
of a sequence of steps, so that a proof about results can leave events aside.
-/

namespace StablePool

/-- A checked computation together with the events it reported. -/
structure Logged (α : Type) where
  log : List Event
  result : Checked α

namespace Logged

instance : Monad Logged where
  pure a := ⟨[], .ok a⟩
  bind first next :=
    match first.result with
    | .ok a => ⟨first.log ++ (next a).log, (next a).result⟩
    | .error cause => ⟨first.log, .error cause⟩

/-- A checked computation reports nothing. -/
instance : MonadLift Checked Logged := ⟨fun result => ⟨[], result⟩⟩

/-- Report one event. -/
def report (event : Event) : Logged Unit := ⟨[event], .ok ()⟩

/-- Refuse to go on. -/
def refuse {α : Type} (cause : Error) : Logged α := ⟨[], .error cause⟩

variable {α β : Type}

@[simp] theorem result_pure (a : α) : (pure a : Logged α).result = .ok a := rfl

@[simp] theorem result_lift (checked : Checked α) :
    (liftM checked : Logged α).result = checked := rfl

@[simp] theorem result_report (event : Event) : (report event).result = .ok () := rfl

@[simp] theorem result_refuse (cause : Error) : (refuse cause : Logged α).result = .error cause :=
  rfl

/-- The result of a sequence is the sequence of the results. -/
@[simp] theorem result_bind (first : Logged α) (next : α → Logged β) :
    (first >>= next).result = first.result >>= fun a => (next a).result := by
  obtain ⟨log, _ | a⟩ := first <;> rfl

/-- A sequence goes on with the value of its first part. -/
theorem result_bind_of_ok {first : Logged α} {a : α} (h : first.result = .ok a)
    (next : α → Logged β) : (first >>= next).result = (next a).result := by
  rw [result_bind, h]
  rfl

/-- A refusal is the result of the whole sequence. -/
theorem result_bind_of_error {first : Logged α} {cause : Error} (h : first.result = .error cause)
    (next : α → Logged β) : (first >>= next).result = .error cause := by
  rw [result_bind, h]
  rfl

/-- A sequence goes on at once with the value of a checked computation. -/
theorem lift_bind_of_ok {checked : Checked α} {a : α} (h : checked = .ok a) (next : α → Logged β) :
    (liftM checked : Logged α) >>= next = next a := by
  rw [h]
  rfl

/-- A checked computation that is refused is all there is of a sequence. -/
theorem lift_bind_of_error {checked : Checked α} {cause : Error} (h : checked = .error cause)
    (next : α → Logged β) : (liftM checked : Logged α) >>= next = refuse cause := by
  rw [h]
  rfl

/-- Sequences that begin alike are equal if they go on alike with each value the first part can have. -/
theorem bind_congr_of_ok {first : Logged α} {next next' : α → Logged β}
    (h : ∀ a, first.result = .ok a → next a = next' a) : first >>= next = first >>= next' := by
  obtain ⟨log, cause | a⟩ := first
  · rfl
  · exact congrArg (fun rest : Logged β => (⟨log ++ rest.log, rest.result⟩ : Logged β)) (h a rfl)

@[simp] theorem result_map (f : α → β) (first : Logged α) :
    (f <$> first).result = first.result.map f := by
  obtain ⟨log, _ | a⟩ := first <;> rfl

@[simp] theorem log_map (f : α → β) (first : Logged α) : (f <$> first).log = first.log := by
  obtain ⟨log, _ | a⟩ := first <;> simp [Functor.map]

/-- A function of the value leaves the report as it is. -/
theorem map_eq (f : α → β) (first : Logged α) :
    f <$> first = ⟨first.log, first.result.map f⟩ := by
  rw [← log_map f first, ← result_map]

/-- A sequence reports what its first part does, and then what the rest does. -/
theorem log_bind_of_ok {first : Logged α} {a : α} (h : first.result = .ok a)
    (next : α → Logged β) : (first >>= next).log = first.log ++ (next a).log := by
  obtain ⟨log, result⟩ := first
  cases h
  rfl

instance : LawfulMonad Logged := LawfulMonad.mk' Logged
  (by rintro α ⟨log, _ | a⟩ <;> simp [Functor.map])
  (by intro α β a next; simp [bind, pure])
  (by
    rintro α β γ ⟨log, _ | a⟩ f g
    · rfl
    · rcases hf : f a with ⟨logf, _ | b⟩ <;> simp [bind, hf])

/-- The result of a pass over a list is the pass over the results. -/
@[simp] theorem result_mapM (f : α → Logged β) (as : List α) :
    (as.mapM f).result = as.mapM fun a => (f a).result := by
  induction as with
  | nil => rfl
  | cons a as ih => simp only [List.mapM_cons, result_bind, result_pure, ih]; rfl

end Logged

end StablePool
