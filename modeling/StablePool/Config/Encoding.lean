import StablePool.Config
import StablePool.Json.Form

/-!
# Configurations as JSON texts

A configuration is written as one object with all its fields in a fixed order. Read, the fields may
come in any order among others; the number of tokens may be left out if it is zero and the iteration
bound if it is the default. An array of the values of the fields in their order is read as well.
Reading keeps only what the types keep: amplifications and price scales are positive and numbers fit
their words, but the configuration need not be valid.
-/

namespace StablePool

instance : JsonForm Amplification where
  toJson a := toJson a.coefficient
  ofJson? json := do
    let coefficient ← ofJson? json
    (Amplification.ofScaled coefficient).toOption

instance : LawfulJsonForm Amplification where
  ofJson?_toJson a := by
    simp [toJson, ofJson?, Json.natural?_ofNat, Amplification.ofScaled, a.coefficient_pos,
      Except.toOption]
  isSpelled_toJson a := isSpelled_toJson a.coefficient

instance : JsonForm FeeRate where
  toJson rate := toJson rate.numerator
  ofJson? json := do
    let numerator ← ofJson? json
    return ⟨numerator⟩

instance : LawfulJsonForm FeeRate where
  ofJson?_toJson rate := by simp [toJson, ofJson?, Json.natural?_ofNat]
  isSpelled_toJson rate := isSpelled_toJson rate.numerator

instance : JsonForm PriceScale where
  toJson p := toJson p.factor
  ofJson? json := do
    let factor ← ofJson? json
    (PriceScale.ofFactor factor).toOption

instance : LawfulJsonForm PriceScale where
  ofJson?_toJson p := by
    simp [toJson, ofJson?, Json.natural?_ofNat, PriceScale.ofFactor, p.factor_pos,
      Except.toOption]
  isSpelled_toJson p := isSpelled_toJson p.factor

/-- The one member of the object of starting balances. -/
def InitialBalances.member : InitialBalances → List Char × Json
  | explicit balances => (Json.key "explicit", toJson balances)
  | uniformDeposit deposit => (Json.key "uniform_deposit", toJson deposit)

/-- The starting balances of a field. -/
def InitialBalances.ofField? (field : List Char × Json) : Option InitialBalances :=
  if field.1 = Json.key "explicit" then (ofJson? field.2).map explicit
  else if field.1 = Json.key "uniform_deposit" then (ofJson? field.2).map uniformDeposit
  else none

instance : JsonForm InitialBalances where
  toJson initial := .object [initial.member]
  ofJson? json := do
    match ← json.fields? with
    | [field] => InitialBalances.ofField? field
    | _ => none

/-- Either key stands for itself. -/
theorem InitialBalances.unescape_member (initial : InitialBalances) :
    Json.unescape initial.member.1 = some initial.member.1 := by
  cases initial with
  | explicit =>
    exact (by decide : Json.unescape (Json.key "explicit") = some (Json.key "explicit"))
  | uniformDeposit =>
    exact (by decide :
      Json.unescape (Json.key "uniform_deposit") = some (Json.key "uniform_deposit"))

/-- Either member is spelled by the rules. -/
theorem InitialBalances.isSpelled_member (initial : InitialBalances) :
    (Json.Token.string initial.member.1).IsSpelled ∧ initial.member.2.IsSpelled := by
  cases initial with
  | explicit =>
    exact ⟨(by decide : (Json.Token.string (Json.key "explicit")).IsSpelled), isSpelled_toJson _⟩
  | uniformDeposit =>
    exact ⟨(by decide : (Json.Token.string (Json.key "uniform_deposit")).IsSpelled),
      isSpelled_toJson _⟩

/-- Starting balances are read back from their member. -/
theorem InitialBalances.ofField?_member (initial : InitialBalances) :
    ofField? initial.member = some initial := by
  cases initial with
  | explicit balances => exact congrArg (Option.map explicit) (ofJson?_toJson balances)
  | uniformDeposit deposit => exact congrArg (Option.map uniformDeposit) (ofJson?_toJson deposit)

instance : LawfulJsonForm InitialBalances where
  ofJson?_toJson initial := by
    have hfields := Json.fields?_object (List.forall_mem_singleton.2 initial.unescape_member)
    simp [toJson, ofJson?, hfields, InitialBalances.ofField?_member]
  isSpelled_toJson initial :=
    Json.isSpelled_object (List.forall_mem_singleton.2 initial.isSpelled_member)

/-- The members of the object of a configuration. -/
def Config.members (c : Config) : Json.Fields :=
  [(Json.key "n_assets", toJson c.assetCount),
    (Json.key "amplification", toJson c.amplification),
    (Json.key "fee", toJson c.fee),
    (Json.key "admin_fee", toJson c.adminFee),
    (Json.key "initial", toJson c.initial),
    (Json.key "price_scales", toJson c.priceScales),
    (Json.key "token_supply", toJson c.tokenSupply),
    (Json.key "max_iterations", toJson c.maxIterations)]

/-- The names of the fields of a configuration, in the order in which they are written. -/
def Config.fieldNames : List String :=
  ["n_assets", "amplification", "fee", "admin_fee", "initial", "price_scales", "token_supply",
    "max_iterations"]

/-- The fields that a value gives: the fields of an object, or the items of an array one by one. -/
def Config.fields? : Json → Option Json.Fields
  | .array items =>
    if items.length ≤ fieldNames.length then some ((fieldNames.map Json.key).zip items) else none
  | json => json.fields?

/-- The configuration of named fields. -/
def Config.ofFields? (fields : Json.Fields) : Option Config := do
  let assetCount ← fields.required? "n_assets"
  let amplification ← fields.required? "amplification"
  let fee ← fields.required? "fee"
  let adminFee ← fields.required? "admin_fee"
  let initial ← fields.required? "initial"
  let priceScales ← fields.required? "price_scales"
  let tokenSupply ← fields.optional? "token_supply" 0
  let maxIterations ← fields.optional? "max_iterations" Config.defaultMaxIterations
  return {
    assetCount, amplification, fee, adminFee, initial, priceScales, tokenSupply, maxIterations }

instance : JsonForm Config where
  toJson c := .object c.members
  ofJson? json := do
    let fields ← Config.fields? json
    Config.ofFields? fields

/-- Every key of a configuration stands for itself. -/
theorem Config.unescape_of_mem_members {c : Config} {member : List Char × Json}
    (h : member ∈ c.members) : Json.unescape member.1 = some member.1 := by
  revert member
  simp only [members, List.forall_mem_cons, List.not_mem_nil, false_implies, implies_true, and_true]
  decide

/-- Every key and every value of a configuration is spelled by the rules. -/
theorem Config.isSpelled_of_mem_members {c : Config} {member : List Char × Json}
    (h : member ∈ c.members) : (Json.Token.string member.1).IsSpelled ∧ member.2.IsSpelled := by
  revert member
  simp only [members, List.forall_mem_cons, List.not_mem_nil, false_implies, implies_true,
    isSpelled_toJson, and_true]
  decide

/-- A configuration is made from its own members. -/
theorem Config.ofFields?_members (c : Config) : ofFields? c.members = some c := by
  have hcount : c.members.required? "n_assets" = some c.assetCount := ofJson?_toJson _
  have hamplification : c.members.required? "amplification" = some c.amplification :=
    ofJson?_toJson _
  have hfee : c.members.required? "fee" = some c.fee := ofJson?_toJson _
  have hadmin : c.members.required? "admin_fee" = some c.adminFee := ofJson?_toJson _
  have hinitial : c.members.required? "initial" = some c.initial := ofJson?_toJson _
  have hscales : c.members.required? "price_scales" = some c.priceScales := ofJson?_toJson _
  have hsupply : c.members.optional? "token_supply" 0 = some c.tokenSupply := ofJson?_toJson _
  have hbound : c.members.optional? "max_iterations" defaultMaxIterations =
      some c.maxIterations := ofJson?_toJson _
  rw [ofFields?, hcount, hamplification, hfee, hadmin, hinitial, hscales, hsupply, hbound]
  rfl

instance : LawfulJsonForm Config where
  ofJson?_toJson c := by
    have hfields := Json.fields?_object fun _ => c.unescape_of_mem_members
    simp [toJson, ofJson?, Config.fields?, hfields, Config.ofFields?_members]
  isSpelled_toJson c := Json.isSpelled_object fun _ => c.isSpelled_of_mem_members

end StablePool
