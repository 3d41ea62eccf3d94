import StablePool.Logged
import StablePool.Proofs.Refusal

/-!
# How a computation ends, and what it reports last

A computation that solves reports each solve that converged, and goes on. It ends with a value, with a
check that is refused, or with a solve that is given up. Only the last of these has an event of its own,
the warning of that solve; after a value there may be one closing event.

The lemmas carry such an ending through sequences. A sequence ends as its second part does, since its
first part either reports no more than convergence or is the end of it all.
-/

namespace StablePool

/-- The event says that a solver was given up at its bound. -/
inductive Event.Warns : Event → String → Nat → Prop where
  | invariant (bound count : Nat) :
    Warns (.invariantNotConverged bound count) "compute_d" bound
  | balance (solver : String) (bound count : Nat) :
    Warns (.balanceNotConverged solver bound count) solver bound

/-- To give up a solver is a warning. -/
theorem Event.Warns.level_eq {e : Event} {solver : String} {bound : Nat} (h : e.Warns solver bound) :
    e.level = .warn := by
  cases h <;> rfl

namespace Logged

variable {α β : Type} {kind : Error → Prop} {bound : Nat} {closing : α → Option Event → Prop}

/-- How a computation whose solves stop at a bound can end, with the event that may follow its traces:
with a value and what `closing` allows for it, with a check of the given kind that is refused in
silence, or with a solve that is given up with its warning. -/
inductive Ending (kind : Error → Prop) (bound : Nat) (closing : α → Option Event → Prop) :
    Checked α → Option Event → Prop where
  | value {a : α} {last : Option Event} (h : closing a last) : Ending kind bound closing (.ok a) last
  | check {cause : Error} (h : kind cause) : Ending kind bound closing (.error cause) none
  | gaveUp {solver : String} {e : Event} (h : e.Warns solver bound) :
    Ending kind bound closing (.error (.notConverged solver bound)) (some e)

/-- The computation reports traces, and then at most one more event, which tells how it ended. -/
def Ends (kind : Error → Prop) (bound : Nat) (closing : α → Option Event → Prop) (m : Logged α) :
    Prop :=
  ∃ (traces : List Event) (last : Option Event), m.log = traces ++ last.toList ∧
    (∀ e ∈ traces, e.level = .trace) ∧ Ending kind bound closing m.result last

/-- The computation ends without a closing event, unless it gives up a solve. -/
def EndsQuietly (kind : Error → Prop) (bound : Nat) (m : Logged α) : Prop :=
  m.Ends kind bound fun _ last => last = none

/-- A value ends a computation quietly. -/
theorem endsQuietly_pure (a : α) : (pure a : Logged α).EndsQuietly kind bound :=
  ⟨[], none, rfl, by simp, .value rfl⟩

/-- A trace ends a computation quietly. -/
theorem endsQuietly_report {e : Event} (h : e.level = .trace) : (report e).EndsQuietly kind bound :=
  ⟨[e], none, rfl, by simpa using h, .value rfl⟩

/-- A check that is refused with the given kind of cause ends quietly. -/
theorem endsQuietly_lift {checked : Checked α} (h : checked.RefusesOnly kind) :
    (liftM checked : Logged α).EndsQuietly kind bound := by
  refine ⟨[], none, rfl, by simp, ?_⟩
  rw [result_lift]
  cases hchecked : checked with
  | error cause => exact .check (h cause hchecked)
  | ok a => exact .value rfl

/-- The last event of a computation closes it. -/
theorem ends_report {e : Event} {a : α} (h : closing a (some e)) :
    (report e >>= fun _ => pure a).Ends kind bound closing :=
  ⟨[], some e, rfl, by simp, .value h⟩

/-- A solve that is given up ends a computation with its warning. -/
theorem ends_refuse {solver : String} {e : Event} (h : e.Warns solver bound) :
    (report e >>= fun _ => (refuse (.notConverged solver bound) : Logged α)).Ends kind bound
      closing :=
  ⟨[], some e, rfl, by simp, .gaveUp h⟩

/-- After a first part that ends quietly, a sequence ends as its second part does. -/
theorem EndsQuietly.bind {first : Logged α} {next : α → Logged β} {closing : β → Option Event → Prop}
    (h : first.EndsQuietly kind bound)
    (hnext : ∀ a, first.result = .ok a → (next a).Ends kind bound closing) :
    (first >>= next).Ends kind bound closing := by
  obtain ⟨log, result⟩ := first
  obtain ⟨traces, last, rfl, htraces, hending⟩ := h
  cases hending with
  | value hquiet =>
    obtain ⟨more, last, hlog, hmore, hending⟩ := hnext _ rfl
    refine ⟨traces ++ more, last, ?_, List.forall_mem_append.2 ⟨htraces, hmore⟩, hending⟩
    rw [log_bind_of_ok rfl, hlog, hquiet, Option.toList_none, List.append_nil, List.append_assoc]
  | check hkind => exact ⟨traces, none, rfl, htraces, .check hkind⟩
  | gaveUp hwarns => exact ⟨traces, some _, rfl, htraces, .gaveUp hwarns⟩

/-- After a check, a sequence ends as its second part does. -/
theorem ends_lift_bind {checked : Checked α} {next : α → Logged β}
    {closing : β → Option Event → Prop} (h : checked.RefusesOnly kind)
    (hnext : ∀ a, checked = .ok a → (next a).Ends kind bound closing) :
    ((liftM checked : Logged α) >>= next).Ends kind bound closing :=
  (endsQuietly_lift h).bind hnext

/-- A pass over a list ends quietly if it does at each entry. -/
theorem endsQuietly_mapM {f : α → Logged β} {as : List α}
    (hf : ∀ a ∈ as, (f a).EndsQuietly kind bound) : (as.mapM f).EndsQuietly kind bound := by
  induction as with
  | nil => exact endsQuietly_pure []
  | cons a as ih =>
    rw [List.mapM_cons]
    refine (hf a List.mem_cons_self).bind fun b _ => ?_
    exact (ih fun c hc => hf c (List.mem_cons_of_mem a hc)).bind fun bs _ => endsQuietly_pure _

/-- What is made of a value ends as the value is closed. -/
theorem Ends.map {m : Logged α} (h : m.Ends kind bound closing) {f : α → β}
    {closing' : β → Option Event → Prop} (hf : ∀ a last, closing a last → closing' (f a) last) :
    (f <$> m).Ends kind bound closing' := by
  obtain ⟨log, result⟩ := m
  obtain ⟨traces, last, rfl, htraces, hending⟩ := h
  refine ⟨traces, last, log_map f _, htraces, ?_⟩
  rw [result_map]
  cases hending with
  | value hclosing => exact .value (hf _ _ hclosing)
  | check hkind => exact .check hkind
  | gaveUp hwarns => exact .gaveUp hwarns

/-- What is made of a value ends quietly if the value does. -/
theorem EndsQuietly.map {m : Logged α} (h : m.EndsQuietly kind bound) (f : α → β) :
    (f <$> m).EndsQuietly kind bound :=
  Ends.map h fun _ _ hquiet => hquiet

/-- A computation that ends in one of these ways is refused for a check or a solve that is given up. -/
theorem Ends.refusesOnly {m : Logged α} (h : m.Ends kind bound closing) {wider : Error → Prop}
    (hkind : ∀ cause, kind cause → wider cause)
    (hgaveUp : ∀ solver, wider (.notConverged solver bound)) : m.result.RefusesOnly wider := by
  obtain ⟨-, last, -, -, hending⟩ := h
  intro cause hcause
  rw [hcause] at hending
  cases hending with
  | check h => exact hkind cause h
  | gaveUp h => exact hgaveUp _

end Logged

end StablePool
