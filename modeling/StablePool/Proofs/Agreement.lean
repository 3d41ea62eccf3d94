import Mathlib.Data.List.Forall2
import StablePool.Checked

/-!
# Computations that agree

Two checked computations agree up to a relation if both yield related values or both are refused with
the same cause. Sequences of agreeing steps agree, which is how two runs of one operation are compared
step by step.
-/

namespace StablePool.Checked

variable {α α' β β' : Type}

/-- Both computations yield values that are related, or both are refused with the same cause. -/
inductive Agree (R : α → α' → Prop) : Checked α → Checked α' → Prop where
  | ok {a : α} {a' : α'} (h : R a a') : Agree R (.ok a) (.ok a')
  | error (cause : Error) : Agree R (.error cause) (.error cause)

namespace Agree

variable {R : α → α' → Prop} {S : β → β' → Prop}

/-- Values that are related agree. -/
theorem pure {a : α} {a' : α'} (h : R a a') :
    Agree R (Pure.pure a : Checked α) (Pure.pure a' : Checked α') := .ok h

/-- Values of computations that agree are related. -/
theorem rel_of_eq_ok {m : Checked α} {m' : Checked α'} {a : α} {a' : α'} (hm : Agree R m m')
    (ha : m = .ok a) (ha' : m' = .ok a') : R a a' := by
  subst ha ha'
  cases hm with
  | ok h => exact h

/-- What agrees up to a relation agrees up to a weaker one. -/
theorem mono {R' : α → α' → Prop} {m : Checked α} {m' : Checked α'} (hm : Agree R m m')
    (h : ∀ a a', R a a' → R' a a') : Agree R' m m' := by
  cases hm with
  | ok hR => exact .ok (h _ _ hR)
  | error cause => exact .error cause

/-- Sequences agree if their first steps do, and what follows related values does. -/
theorem bind {m : Checked α} {m' : Checked α'} {f : α → Checked β} {f' : α' → Checked β'}
    (hm : Agree R m m')
    (hf : ∀ a a', m = .ok a → m' = .ok a' → R a a' → Agree S (f a) (f' a')) :
    Agree S (m >>= f) (m' >>= f') := by
  cases hm with
  | ok h => exact hf _ _ rfl rfl h
  | error cause => exact .error cause

/-- Sequences with the same first step agree if what follows its value does. -/
theorem bind_same {m : Checked α} {f : α → Checked β} {f' : α → Checked β'}
    (hf : ∀ a, m = .ok a → Agree S (f a) (f' a)) : Agree S (m >>= f) (m >>= f') := by
  cases m with
  | ok a => exact hf a rfl
  | error cause => exact .error cause

/-- Sequences whose first steps succeed agree if what follows does. -/
theorem bind_of_ok {m : Checked α} {m' : Checked α'} {a : α} {a' : α'} {f : α → Checked β}
    {f' : α' → Checked β'} (hm : m = .ok a) (hm' : m' = .ok a') (hf : Agree S (f a) (f' a')) :
    Agree S (m >>= f) (m' >>= f') := by
  rw [hm, hm']
  exact hf

end Agree

/-- Look-ups at one index agree if the lists are related entry by entry. -/
theorem agree_entry {R : α → α' → Prop} {entries : List α} {entries' : List α'}
    (h : List.Forall₂ R entries entries') (index : Nat) :
    Agree R (entry entries index) (entry entries' index) := by
  have hlength := h.length_eq
  rcases Nat.lt_or_ge index entries.length with hlt | hge
  · have hlt' : index < entries'.length := hlength ▸ hlt
    rw [entry_eq_ok_iff.2 (List.getElem?_eq_getElem hlt),
      entry_eq_ok_iff.2 (List.getElem?_eq_getElem hlt')]
    exact .ok (h.get hlt hlt')
  · rw [entry_eq_error_iff.2 ⟨hge, rfl⟩, entry_eq_error_iff.2 ⟨hlength ▸ hge, rfl⟩, hlength]
    exact .error _

end StablePool.Checked
