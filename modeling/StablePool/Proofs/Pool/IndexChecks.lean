import StablePool.Proofs.Pool.RequestEndings

/-!
# No look-up fails behind a check

An asset index is checked where it enters an operation, and is used again wherever a list has an entry
for each asset. A request whose look-up is refused names an index that the pool does not have, and
names the number of its assets: no list that the operation forms on its way is too short for an index
that passed the check.
-/

namespace StablePool

open Checked (RefusesOnly)

/-- A refusal for an index names the number of the assets and an index beyond them. -/
def Error.NamesOutside (count : Nat) : Error → Prop
  | .invalidAsset index size => size = count ∧ count ≤ index
  | _ => True

/-- A check that fails names an index only if it is outside. -/
theorem Error.IsCheckOf.namesOutside {count : Nat} (cause : Error) (h : IsCheckOf count cause) :
    NamesOutside count cause := by
  cases cause with
  | invalidAsset index size => exact h
  | _ => trivial

namespace Pool

variable (p : Pool)

/-- A computation that ends as a request to the pool does names an index only if the pool does not have
it. -/
theorem refusesOnly_of_ends {α : Type} {m : Logged α} {closing : α → Option Event → Prop}
    (h : m.Ends (Error.IsCheckOf p.assetCount) p.terms.maxIterations closing) :
    RefusesOnly (Error.NamesOutside p.assetCount) m.result :=
  h.refusesOnly Error.IsCheckOf.namesOutside fun _ => trivial

/-- A request names an index only if the pool does not have it. -/
theorem refusesOnly_respond (request : Request) :
    RefusesOnly (Error.NamesOutside p.assetCount) (p.respond request).1.result := by
  cases request with
  | query q => exact p.refusesOnly_of_ends (p.endsQuietly_ask q)
  | command c =>
    intro cause h
    cases hresult : (p.perform c).result with
    | error first =>
      rw [respond_command_of_error hresult] at h
      obtain rfl := Except.error.inj h
      exact p.refusesOnly_of_ends (p.ends_perform c) first hresult
    | ok yielded =>
      rw [respond_command_of_ok hresult] at h
      cases h

end Pool

end StablePool
