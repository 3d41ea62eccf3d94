import StablePool.Word

/-!
# The kinds of refusal

A refusal blames the arguments of a call, a step of its arithmetic, an iteration that was given up,
or terms that the caller set. A computation refuses only with a given kind if each of its steps
does; the lemmas below say so once for sequences, for folds and for the operations on words.
-/

namespace StablePool

/-- The arguments of a call are at fault. -/
def Error.IsArgument : Error → Prop
  | .invalidConfiguration _ | .invalidAsset .. | .identicalAssets _ | .lengthMismatch .. => True
  | _ => False

/-- A step of the arithmetic is at fault. -/
def Error.IsArithmetic : Error → Prop
  | .underflow _ | .overflow _ | .divisionByZero _ => True
  | _ => False

/-- The call as it stands is at fault, and no iteration that was given up. -/
def Error.BlamesCall (cause : Error) : Prop := cause.IsArgument ∨ cause.IsArithmetic

/-- Everything belongs to a kind that a call on a pool of `count` assets can be refused for on account
of its arguments or its arithmetic. -/
structure Error.CoversCall (kind : Error → Prop) (count : Nat) : Prop where
  arithmetic : ∀ cause : Error, cause.IsArithmetic → kind cause
  rule : ∀ rule, kind (.invalidConfiguration rule)
  outside : ∀ index, count ≤ index → kind (.invalidAsset index count)
  identical : ∀ index, kind (.identicalAssets index)

/-- A kind that covers a call and an iteration that is given up. -/
structure Error.CoversSolve (kind : Error → Prop) (count : Nat) : Prop extends
    Error.CoversCall kind count where
  gaveUp : ∀ solver passes, kind (.notConverged solver passes)

/-- What blames the call covers it. -/
theorem Error.coversCall_blamesCall (count : Nat) : CoversCall BlamesCall count where
  arithmetic _ h := .inr h
  rule _ := .inl trivial
  outside _ _ := .inl trivial
  identical _ := .inl trivial

/-- A divisor of zero is at fault. -/
def Error.IsDivision : Error → Prop
  | .divisionByZero _ => True
  | _ => False

/-- A number is too large for its word. -/
def Error.IsOverflow : Error → Prop
  | .overflow _ => True
  | _ => False

/-- An overflow names the step that it happened at. -/
theorem Error.IsOverflow.exists_eq {cause : Error} (h : cause.IsOverflow) :
    ∃ step, cause = .overflow step := by
  cases cause with
  | overflow step => exact ⟨step, rfl⟩
  | _ => exact h.elim

namespace Checked

variable {α β : Type} {kind : Error → Prop}

/-- Every cause with which a computation is refused is of the given kind. -/
def RefusesOnly (kind : Error → Prop) (m : Checked α) : Prop :=
  ∀ cause, m = .error cause → kind cause

/-- A value is no refusal. -/
theorem refusesOnly_pure (a : α) : RefusesOnly kind (pure a : Checked α) := by
  intro cause h
  cases h

/-- A sequence is refused by its first step, or by its second after the first succeeded. -/
theorem RefusesOnly.bind {m : Checked α} {f : α → Checked β} (hm : RefusesOnly kind m)
    (hf : ∀ a, m = .ok a → RefusesOnly kind (f a)) : RefusesOnly kind (m >>= f) := by
  intro cause h
  rcases bind_eq_error_iff.1 h with hfirst | ⟨a, ha, hsecond⟩
  · exact hm cause hfirst
  · exact hf a ha cause hsecond

/-- What is made of a value refuses nothing more. -/
theorem RefusesOnly.map {m : Checked α} (hm : RefusesOnly kind m) (f : α → β) :
    RefusesOnly kind (m.map f) := by
  intro cause h
  cases m with
  | error first =>
    obtain rfl := Except.error.inj h
    exact hm first rfl
  | ok a => cases h

/-- A list of steps is refused by one of them, whatever state it starts from. -/
theorem refusesOnly_foldlM_of_mem {f : β → α → Checked β} {as : List α}
    (hf : ∀ a ∈ as, ∀ s, RefusesOnly kind (f s a)) (start : β) :
    RefusesOnly kind (as.foldlM f start) := by
  induction as generalizing start with
  | nil => exact refusesOnly_pure start
  | cons a as ih =>
    rw [List.foldlM_cons]
    exact (hf a List.mem_cons_self start).bind fun next _ =>
      ih (fun b hb => hf b (List.mem_cons_of_mem a hb)) next

/-- A list of steps is refused by one of them. -/
theorem refusesOnly_foldlM {f : β → α → Checked β} (hf : ∀ s a, RefusesOnly kind (f s a))
    (as : List α) (start : β) : RefusesOnly kind (as.foldlM f start) :=
  refusesOnly_foldlM_of_mem (fun a _ s => hf s a) start

/-- A pass over a list is refused at one of its entries. -/
theorem refusesOnly_mapM {f : α → Checked β} {as : List α}
    (hf : ∀ a ∈ as, RefusesOnly kind (f a)) : RefusesOnly kind (as.mapM f) := by
  induction as with
  | nil => exact refusesOnly_pure []
  | cons a as ih =>
    rw [List.mapM_cons]
    refine (hf a List.mem_cons_self).bind fun b _ => ?_
    exact (ih fun c hc => hf c (List.mem_cons_of_mem a hc)).bind fun bs _ => refusesOnly_pure _

/-- A check is refused with its own cause. -/
theorem refusesOnly_ensure {condition : Prop} [Decidable condition] {otherwise : Error}
    (h : kind otherwise) : RefusesOnly kind (ensure condition otherwise) := by
  intro cause hcause
  exact (ensure_eq_error_iff.1 hcause).2 ▸ h

/-- A check whose condition holds is not refused. -/
theorem refusesOnly_ensure_of {condition : Prop} [Decidable condition] {otherwise : Error}
    (h : condition) : RefusesOnly kind (ensure condition otherwise) := by
  intro cause hcause
  exact absurd h (ensure_eq_error_iff.1 hcause).1

/-- A look-up is refused for an index beyond the end. -/
theorem refusesOnly_entry {entries : List α} {index : Nat}
    (h : entries.length ≤ index → kind (.invalidAsset index entries.length)) :
    RefusesOnly kind (entry entries index) := by
  intro cause hcause
  obtain ⟨hbeyond, rfl⟩ := entry_eq_error_iff.1 hcause
  exact h hbeyond

end Checked

namespace Word

open Checked (RefusesOnly)

variable {w : Nat} {kind : Error → Prop}

/-- A number that has to fit is refused with the cause set for it. -/
theorem refusesOnly_fit {n : Nat} {tooLarge : Error} (h : kind tooLarge) :
    RefusesOnly kind (fit n tooLarge : Checked (Word w)) := by
  intro cause hcause
  exact (fit_eq_error_iff.1 hcause).2 ▸ h

/-- Sums are refused for overflow alone. -/
theorem refusesOnly_add {a b : Word w} {step : String} (h : kind (.overflow step)) :
    RefusesOnly kind (a.add b step) := refusesOnly_fit h

/-- Products are refused for overflow alone. -/
theorem refusesOnly_mul {a b : Word w} {step : String} (h : kind (.overflow step)) :
    RefusesOnly kind (a.mul b step) := refusesOnly_fit h

/-- Multiples are refused for overflow alone. -/
theorem refusesOnly_times {count : Nat} {a : Word w} {step : String} (h : kind (.overflow step)) :
    RefusesOnly kind (times count a step) := refusesOnly_fit h

/-- Narrowing is refused for overflow alone. -/
theorem refusesOnly_narrow {a : Wide} {step : String} (h : kind (.overflow step)) :
    RefusesOnly kind (a.narrow step) := refusesOnly_fit h

/-- Differences are refused with the cause set for them. -/
theorem refusesOnly_minus {a b : Word w} {short : Error} (h : kind short) :
    RefusesOnly kind (a.minus b short) := by
  intro cause hcause
  exact (minus_eq_error_iff.1 hcause).2 ▸ h

/-- A difference that is not negative is not refused. -/
theorem refusesOnly_minus_of_le {a b : Word w} {short : Error} (h : b.val ≤ a.val) :
    RefusesOnly kind (a.minus b short) := by
  intro cause hcause
  exact absurd (minus_eq_error_iff.1 hcause).1 (Nat.not_lt.2 h)

/-- Differences are refused for underflow alone. -/
theorem refusesOnly_sub {a b : Word w} {step : String} (h : kind (.underflow step)) :
    RefusesOnly kind (a.sub b step) := refusesOnly_minus h

/-- Quotients are refused for a divisor of zero alone. -/
theorem refusesOnly_div {a b : Word w} {step : String} (h : kind (.divisionByZero step)) :
    RefusesOnly kind (a.div b step) := by
  intro cause hcause
  exact (div_eq_error_iff.1 hcause).2 ▸ h

/-- A quotient by a positive divisor is not refused. -/
theorem refusesOnly_div_of_pos {a b : Word w} {step : String} (h : 0 < b.val) :
    RefusesOnly kind (a.div b step) := by
  intro cause hcause
  exact absurd (div_eq_error_iff.1 hcause).1 (Nat.ne_of_gt h)

/-- A product divided by a positive divisor is refused for overflow alone. -/
theorem refusesOnly_mulDiv_of_pos {a b divisor : Amount} {step : String} (hpos : 0 < divisor.val)
    (h : kind (.overflow step)) : RefusesOnly kind (mulDiv a b divisor step) := by
  intro cause hcause
  rcases mulDiv_eq_error_iff.1 hcause with ⟨hzero, -⟩ | ⟨-, -, rfl⟩
  · exact absurd hzero (Nat.ne_of_gt hpos)
  · exact h

/-- A quotient of a product is refused for a divisor of zero or for overflow. -/
theorem refusesOnly_mulDiv {a b divisor : Amount} {step : String}
    (hzero : kind (.divisionByZero step)) (hlarge : kind (.overflow step)) :
    RefusesOnly kind (mulDiv a b divisor step) := by
  intro cause hcause
  rcases mulDiv_eq_error_iff.1 hcause with ⟨-, rfl⟩ | ⟨-, -, rfl⟩
  · exact hzero
  · exact hlarge

end Word

end StablePool
