import StablePool.Pool.Ledger
import StablePool.Proofs.Pool.RequestEndings

/-!
# The event log tells the outcome of a request

The events of a request are the traces of the solves that converged, and then at most one more. A
command that succeeded is the only request that reports what it did; a solve that is given up is the
only refusal with an event, and no event follows its warning. Whatever else happens leaves the traces as
they are. So the last event alone tells which of the three it was, and over a history as many events
tell of a command as there were commands that succeeded.

How many solves a request traces is not stated here.
-/

namespace StablePool

open Logged

/-- What follows the traces of a request that led to the pool `after`, given its answer: nothing after
the reply to a query, what a command did after its reply, the warning of the solver that a refusal
names, and nothing after any other refusal. -/
inductive Request.Closing (bound : Nat) (after : Pool) :
    Request → Checked Reply → Option Event → Prop where
  | asked (q : Query) (reply : Reply) : Closing bound after (.query q) (.ok reply) none
  | committed {c : Command} {reply : Reply} {e : Event} (h : c.Commits after reply e) :
    Closing bound after (.command c) (.ok reply) (some e)
  | gaveUp {request : Request} {solver : String} {e : Event} (h : e.Warns solver bound) :
    Closing bound after request (.error (.notConverged solver bound)) (some e)
  | refused {request : Request} {cause : Error}
    (h : ∀ solver passes, cause ≠ .notConverged solver passes) :
    Closing bound after request (.error cause) none

/-- A check that fails is no solve that is given up. -/
theorem Error.IsCheckOf.ne_notConverged {count : Nat} {cause : Error} (h : IsCheckOf count cause)
    (solver : String) (passes : Nat) : cause ≠ .notConverged solver passes := by
  rintro rfl
  exact h

section

variable {traces : List Event} {last : Option Event}

/-- An event of another level than the traces before it is the one that follows them. -/
theorem exists_mem_append_toList_iff {level : Level} (htraces : ∀ e ∈ traces, e.level = .trace)
    (hlevel : level ≠ .trace) :
    (∃ e ∈ traces ++ last.toList, e.level = level) ↔ ∃ e ∈ last, e.level = level := by
  constructor
  · rintro ⟨e, he, rfl⟩
    rcases List.mem_append.1 he with htrace | hlast
    · exact absurd (htraces e htrace) hlevel
    · exact ⟨e, Option.mem_toList.1 hlast, rfl⟩
  · rintro ⟨e, he, rfl⟩
    exact ⟨e, List.mem_append_right _ (Option.mem_toList.2 he), rfl⟩

/-- Nothing follows an event of another level than the traces before it. -/
theorem eq_nil_of_append_toList_eq {before rest : List Event} {e : Event}
    (htraces : ∀ e ∈ traces, e.level = .trace) (hlevel : e.level ≠ .trace)
    (h : traces ++ last.toList = before ++ e :: rest) : rest = [] := by
  induction traces generalizing before with
  | nil =>
    have hone : last.toList.length ≤ 1 := by cases last <;> simp
    have hlength := congrArg List.length h
    simp only [List.nil_append, List.length_append, List.length_cons] at hlength
    exact List.length_eq_zero_iff.1 (by omega)
  | cons first traces ih =>
    cases before with
    | nil =>
      obtain ⟨rfl, -⟩ := List.cons.inj h
      exact absurd (htraces _ List.mem_cons_self) hlevel
    | cons second before =>
      exact ih (fun e he => htraces e (List.mem_cons_of_mem _ he)) (List.cons.inj h).2

end

namespace Request.Closing

variable {bound : Nat} {after : Pool} {request : Request} {result : Checked Reply}
  {last : Option Event}

/-- A request that ends with a refusal closes its log with a warning or not at all. -/
theorem of_ending_error {α : Type} {count : Nat} {closing : α → Option Event → Prop} {cause : Error}
    (h : Ending (Error.IsCheckOf count) bound closing (.error cause) last) :
    request.Closing bound after (.error cause) last := by
  cases h with
  | check h => exact .refused h.ne_notConverged
  | gaveUp h => exact .gaveUp h

/-- The last event is for debugging exactly after a command that succeeded. -/
theorem exists_debug_iff (h : request.Closing bound after result last) :
    (∃ e ∈ last, e.level = .debug) ↔ ∃ c reply, request = .command c ∧ result = .ok reply := by
  cases h with
  | asked q reply => simp
  | committed h => simp [h.level_eq]
  | gaveUp h => simp [h.level_eq]
  | refused h => simp

/-- The last event is a warning exactly after a solve that was given up. -/
theorem exists_warn_iff (h : request.Closing bound after result last) :
    (∃ e ∈ last, e.level = .warn) ↔
      ∃ solver passes, result = .error (.notConverged solver passes) := by
  cases h with
  | asked q reply => simp
  | committed h => simp [h.level_eq]
  | gaveUp h => simp [h.level_eq]
  | refused h => simpa using h

/-- A request has as many debugging events after its traces as it has commands that succeeded. -/
theorem countP_debug (h : request.Closing bound after result last) :
    (last.toList.countP fun e => e.level = .debug) =
      Pool.counted (fun _ _ => 1) request result := by
  cases h with
  | asked q reply => rfl
  | committed h => simp [h.level_eq, Pool.counted]
  | gaveUp h => cases request <;> simp [h.level_eq, Pool.counted]
  | refused h => cases request <;> rfl

end Request.Closing

namespace Pool

variable (p : Pool) (request : Request)

/-- Every request traces its solves and closes its log as its answer says. -/
theorem exists_closing_respond :
    ∃ (traces : List Event) (last : Option Event),
      (p.respond request).1.log = traces ++ last.toList ∧ (∀ e ∈ traces, e.level = .trace) ∧
        request.Closing p.terms.maxIterations (p.respond request).2 (p.respond request).1.result
          last := by
  cases request with
  | query q =>
    obtain ⟨traces, last, hlog, htraces, hending⟩ := p.endsQuietly_ask q
    refine ⟨traces, last, hlog, htraces, ?_⟩
    rw [respond_query]
    cases hresult : (p.ask q).result with
    | ok reply =>
      rw [hresult] at hending
      cases hending with
      | value hquiet =>
        subst hquiet
        exact .asked q reply
    | error cause => exact .of_ending_error (hresult ▸ hending)
  | command c =>
    obtain ⟨traces, last, hlog, htraces, hending⟩ := p.ends_perform c
    refine ⟨traces, last, ?_⟩
    cases hresult : (p.perform c).result with
    | ok yielded =>
      rw [respond_command_of_ok hresult]
      rw [hresult] at hending
      cases hending with
      | value hcommits =>
        obtain ⟨e, rfl, hcommits⟩ := hcommits
        exact ⟨hlog, htraces, .committed hcommits⟩
    | error cause =>
      rw [respond_command_of_error hresult]
      exact ⟨hlog, htraces, .of_ending_error (hresult ▸ hending)⟩

/-- The log of a request consists of traces and at most one more event: what a command did, exactly if
it is a command that succeeded, with the value it yielded and the tokens of the new pool; the warning
of a solver, exactly if the request is refused because that solver was given up at its bound; and
otherwise none. -/
theorem log_tells_outcome :
    (∃ (traces : List Event) (last : Option Event),
      (p.respond request).1.log = traces ++ last.toList ∧ (∀ e ∈ traces, e.level = .trace) ∧
        request.Closing p.terms.maxIterations (p.respond request).2 (p.respond request).1.result
          last) ∧
      ((∃ e ∈ (p.respond request).1.log, e.level = .debug) ↔
        ∃ c reply, request = .command c ∧ (p.respond request).1.result = .ok reply) ∧
      ((∃ e ∈ (p.respond request).1.log, e.level = .warn) ↔
        ∃ solver passes, (p.respond request).1.result = .error (.notConverged solver passes)) ∧
      ∀ before e rest, (p.respond request).1.log = before ++ e :: rest → e.level ≠ .trace →
        rest = [] := by
  obtain ⟨traces, last, hlog, htraces, hclosing⟩ := p.exists_closing_respond request
  refine ⟨⟨traces, last, hlog, htraces, hclosing⟩, ?_, ?_, fun before e rest hsplit hlevel => ?_⟩
  · rw [hlog, exists_mem_append_toList_iff htraces (by decide), hclosing.exists_debug_iff]
  · rw [hlog, exists_mem_append_toList_iff htraces (by decide), hclosing.exists_warn_iff]
  · exact eq_nil_of_append_toList_eq htraces hlevel (hlog ▸ hsplit)

/-- An exchange under a bound of one pass: the invariant of an even pool settles at once, and the solve
for the output is given up. -/
example :
    let p : Pool := {
      terms := {
        amplification := ⟨.lit 200, by decide⟩
        fee := ⟨.lit 4⟩
        adminFee := ⟨.lit 5000⟩
        maxIterations := 1
        fee_isValid := by decide
        adminFee_isValid := by decide }
      assets := [⟨.lit (10 ^ 18), 0, .one⟩, ⟨.lit (10 ^ 18), 0, .one⟩]
      tokenSupply := .lit (2 * 10 ^ 18) }
    (p.respond (.command (.swap 0 1 (.lit (10 ^ 17))))).1.log =
      [.invariantConverged 1, .balanceNotConverged "solve_for_output" 1 2] := by
  decide +kernel

/-- The log of a history has one debugging event for each command that succeeds. -/
theorem countP_debug_run (requests : List Request) :
    (((p.run requests).flatMap fun served => served.1.log).countP fun e => e.level = .debug) =
      p.tally (fun _ _ => 1) requests := by
  induction requests generalizing p with
  | nil => rfl
  | cons request rest ih =>
    obtain ⟨traces, last, hlog, htraces, hclosing⟩ := p.exists_closing_respond request
    have hnone : (traces.countP fun e => e.level = .debug) = 0 :=
      List.countP_eq_zero.2 fun e he => by simp [htraces e he]
    rw [run, List.flatMap_cons, List.countP_append, ih, hlog, List.countP_append, hnone,
      Nat.zero_add, hclosing.countP_debug, tally]

end Pool

end StablePool
