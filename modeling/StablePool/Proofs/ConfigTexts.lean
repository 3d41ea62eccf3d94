import Mathlib.Algebra.Group.Nat.Defs
import StablePool.Config.Encoding

/-!
# Configurations through their texts

A configuration is read back from its text. The members of its object may be written in any order, and
those that give a default may be left out: each field is looked up by its name, and a field that was
left out is given its default again.

Whatever text is accepted, its number for the amplification and its price scales were read as amounts
first, and none of them is zero. Which texts are accepted is not characterised further.
-/

namespace StablePool

namespace Json.Fields

/-- The values for a field come from the first of two lists of fields, and then from the second. -/
theorem values_append (fields more : Fields) (name : String) :
    Fields.values (fields ++ more) name = fields.values name ++ more.values name := by
  simp [values]

/-- The order of the fields does not change which values are given for a field. -/
theorem values_perm {fields fields' : Fields} (h : fields.Perm fields') (name : String) :
    (fields.values name).Perm (fields'.values name) :=
  (h.filter _).map _

/-- Fewer fields give no new values for a field. -/
theorem values_subset {fields fields' : Fields} (h : fields ⊆ fields') (name : String) :
    fields.values name ⊆ fields'.values name :=
  List.map_subset _ (List.filter_subset _ h)

section

variable {α : Type} [JsonForm α] [LawfulJsonForm α] {fields omitted : Fields} {name : String} {a : α}

/-- A field that must be given is read if its one value was not omitted. -/
theorem required?_of_perm (h : (fields.values name ++ omitted.values name).Perm [toJson a])
    (hgiven : omitted.values name ⊆ []) : fields.required? name = some a := by
  rw [List.subset_nil.1 hgiven, List.append_nil, List.perm_singleton] at h
  rw [required?, h]
  exact ofJson?_toJson a

/-- A field with a default is read, unless its one value was omitted, which was the default then. -/
theorem optional?_of_perm {otherwise : α}
    (h : (fields.values name ++ omitted.values name).Perm [toJson a])
    (hdefault : omitted.values name ⊆ [toJson otherwise]) :
    fields.optional? name otherwise = some a := by
  rw [List.perm_singleton, List.append_eq_singleton_iff] at h
  rcases h with ⟨hnone, hvalue⟩ | ⟨hvalue, -⟩
  · rw [hvalue] at hdefault
    have hjson : toJson a = toJson otherwise :=
      List.mem_singleton.1 (hdefault List.mem_cons_self)
    have hsame : some a = some otherwise := by
      rw [← ofJson?_toJson a, hjson, ofJson?_toJson]
    rw [optional?, hnone, hsame]
  · rw [optional?, hvalue]
    exact ofJson?_toJson a

end

/-- A field whose value is read through another type can be read as that type. -/
theorem required?_of_view {α β : Type} [JsonForm α] [JsonForm β] {view : α → β}
    (hview : ∀ json a, ofJson? json = some a → ofJson? json = some (view a)) {fields : Fields}
    {name : String} {a : α} (h : fields.required? name = some a) :
    fields.required? name = some (view a) := by
  unfold required? at h ⊢
  split at h
  · next value hvalue => exact hview value a h
  · cases h

end Json.Fields

/-- A list whose entries are read through another type can be read as a list of that type. -/
theorem ofJson?_list_of_view {α β : Type} [JsonForm α] [JsonForm β] {view : α → β}
    (hview : ∀ json a, ofJson? json = some a → ofJson? json = some (view a)) (json : Json)
    (entries : List α) (h : ofJson? json = some entries) :
    ofJson? json = some (entries.map view) := by
  cases json with
  | array items =>
    change items.mapM ofJson? = some entries at h
    change items.mapM ofJson? = some (entries.map view)
    induction items generalizing entries with
    | nil =>
      cases h
      rfl
    | cons item items ih =>
      simp only [List.mapM_cons, Option.bind_eq_bind, Option.bind_eq_some_iff, Option.pure_def,
        Option.some.injEq] at h ⊢
      obtain ⟨entry, hentry, rest, hrest, rfl⟩ := h
      exact ⟨view entry, hview item entry hentry, rest.map view, ih rest hrest, rfl⟩
  | _ => cases h

/-- An amplification is read as its coefficient. -/
theorem Amplification.ofJson?_coefficient (json : Json) (a : Amplification)
    (h : ofJson? json = some a) : ofJson? json = some a.coefficient := by
  obtain ⟨coefficient, hcoefficient, h⟩ := Option.bind_eq_some_iff.1 h
  unfold ofScaled at h
  split at h <;> cases h
  exact hcoefficient

/-- A price scale is read as its factor. -/
theorem PriceScale.ofJson?_factor (json : Json) (p : PriceScale) (h : ofJson? json = some p) :
    ofJson? json = some p.factor := by
  obtain ⟨factor, hfactor, h⟩ := Option.bind_eq_some_iff.1 h
  unfold ofFactor at h
  split at h <;> cases h
  exact hfactor

namespace Config

/-- The members that may be left out, since they give a default. -/
def defaultMembers : Json.Fields :=
  [(Json.key "token_supply", toJson (0 : Amount)),
    (Json.key "max_iterations", toJson defaultMaxIterations)]

/-- The fields are those of the configuration, in any order, and only defaults are left out. -/
def IsListedBy (c : Config) (fields : Json.Fields) : Prop :=
  ∃ omitted ⊆ defaultMembers, (fields ++ omitted).Perm c.members

variable {c : Config} {fields : Json.Fields}

/-- A configuration is made from its fields in any order, with defaults left out. -/
theorem IsListedBy.ofFields?_eq (h : c.IsListedBy fields) : ofFields? fields = some c := by
  obtain ⟨omitted, homitted, hperm⟩ := h
  have hvalues (name : String) :
      (fields.values name ++ omitted.values name).Perm (Json.Fields.values c.members name) := by
    rw [← Json.Fields.values_append]
    exact Json.Fields.values_perm hperm name
  have hdefaults (name : String) :
      omitted.values name ⊆ Json.Fields.values defaultMembers name :=
    Json.Fields.values_subset homitted name
  have hcount : fields.required? "n_assets" = some c.assetCount :=
    Json.Fields.required?_of_perm (hvalues _) (hdefaults _)
  have hamplification : fields.required? "amplification" = some c.amplification :=
    Json.Fields.required?_of_perm (hvalues _) (hdefaults _)
  have hfee : fields.required? "fee" = some c.fee :=
    Json.Fields.required?_of_perm (hvalues _) (hdefaults _)
  have hadmin : fields.required? "admin_fee" = some c.adminFee :=
    Json.Fields.required?_of_perm (hvalues _) (hdefaults _)
  have hinitial : fields.required? "initial" = some c.initial :=
    Json.Fields.required?_of_perm (hvalues _) (hdefaults _)
  have hscales : fields.required? "price_scales" = some c.priceScales :=
    Json.Fields.required?_of_perm (hvalues _) (hdefaults _)
  have hsupply : fields.optional? "token_supply" 0 = some c.tokenSupply :=
    Json.Fields.optional?_of_perm (hvalues _) (hdefaults _)
  have hbound : fields.optional? "max_iterations" defaultMaxIterations = some c.maxIterations :=
    Json.Fields.optional?_of_perm (hvalues _) (hdefaults _)
  rw [ofFields?, hcount, hamplification, hfee, hadmin, hinitial, hscales, hsupply, hbound]
  rfl

/-- The fields that list a configuration are among its members. -/
theorem IsListedBy.mem_members (h : c.IsListedBy fields) {member : List Char × Json}
    (hmember : member ∈ fields) : member ∈ c.members := by
  obtain ⟨omitted, -, hperm⟩ := h
  exact hperm.mem_iff.1 (List.mem_append_left omitted hmember)

/-- The object of fields that list a configuration is read back from its text. -/
theorem IsListedBy.parse?_render (h : c.IsListedBy fields) :
    Json.parse? (Json.object fields).render = some (.object fields) :=
  Json.parse?_render (Json.isSpelled_object fun _ hmember =>
    isSpelled_of_mem_members (h.mem_members hmember))

/-- The object of fields that list a configuration has these fields. -/
theorem IsListedBy.fields?_object (h : c.IsListedBy fields) :
    fields? (.object fields) = some fields :=
  Json.fields?_object fun _ hmember => unescape_of_mem_members (h.mem_members hmember)

/-- A text decodes to what the fields of its value make. -/
theorem decode?_eq_some_iff {text : String} :
    decode? text = some c ↔ ∃ json fields, Json.parse? text.toList = some json ∧
      fields? json = some fields ∧ ofFields? fields = some c := by
  simp [decode?, ofJson?, Option.bind_eq_some_iff]

/-- The amplification of a configuration is the coefficient that was given for it. -/
theorem coefficient_of_ofFields?_eq (h : ofFields? fields = some c) :
    fields.required? "amplification" = some c.amplification.coefficient := by
  simp only [ofFields?, Option.bind_eq_bind, Option.bind_eq_some_iff, Option.pure_def,
    Option.some.injEq] at h
  obtain ⟨-, -, a, ha, -, -, -, -, -, -, -, -, -, -, -, -, rfl⟩ := h
  exact Json.Fields.required?_of_view Amplification.ofJson?_coefficient ha

/-- The price scales of a configuration are the factors that were given for them. -/
theorem factors_of_ofFields?_eq (h : ofFields? fields = some c) :
    fields.required? "price_scales" = some (c.priceScales.map PriceScale.factor) := by
  simp only [ofFields?, Option.bind_eq_bind, Option.bind_eq_some_iff, Option.pure_def,
    Option.some.injEq] at h
  obtain ⟨-, -, -, -, -, -, -, -, -, -, scales, hscales, -, -, -, -, rfl⟩ := h
  exact Json.Fields.required?_of_view (ofJson?_list_of_view PriceScale.ofJson?_factor) hscales

/-- Configurations, and the values in them, are read back from their texts. A configuration is read from
its members in any order as well, with a number of tokens of zero and the default bound left out if one
likes. What is read from any accepted text has an amplification and price scales that were given as
amounts other than zero, and is read back from its own text. -/
theorem configurations_keep_through_texts :
    (∀ c : Config, decode? (encode c) = some c) ∧
    (∀ a : Amplification, decode? (encode a) = some a) ∧
    (∀ rate : FeeRate, decode? (encode rate) = some rate) ∧
    (∀ scale : PriceScale, decode? (encode scale) = some scale) ∧
    (∀ initial : InitialBalances, decode? (encode initial) = some initial) ∧
    (∀ (c : Config) (fields : Json.Fields), c.IsListedBy fields →
      decode? (String.ofList (Json.object fields).render) = some c ∧
      ∀ (text : String) (json : Json), Json.parse? text.toList = some json →
        json.fields? = some fields → decode? text = some c) ∧
    (∀ (text : String) (c : Config), decode? text = some c →
      decode? (encode c) = some c ∧
      ∃ (json : Json) (fields : Json.Fields) (coefficient : Amount) (factors : List Amount),
        Json.parse? text.toList = some json ∧ fields? json = some fields ∧
        fields.required? "amplification" = some coefficient ∧
        c.amplification.coefficient = coefficient ∧ coefficient ≠ 0 ∧
        fields.required? "price_scales" = some factors ∧
        c.priceScales.map PriceScale.factor = factors ∧ 0 ∉ factors) := by
  refine ⟨decode?_encode, decode?_encode, decode?_encode, decode?_encode, decode?_encode,
    fun c fields h => ⟨?_, fun text json htext hfields => ?_⟩, fun text c h => ⟨decode?_encode c, ?_⟩⟩
  · rw [decode?_eq_some_iff, String.toList_ofList]
    exact ⟨_, fields, h.parse?_render, h.fields?_object, h.ofFields?_eq⟩
  · refine decode?_eq_some_iff.2 ⟨json, fields, htext, ?_, h.ofFields?_eq⟩
    cases json with
    | object members => exact hfields
    | _ => cases hfields
  · obtain ⟨json, fields, hjson, hfields, hc⟩ := decode?_eq_some_iff.1 h
    refine ⟨json, fields, c.amplification.coefficient, c.priceScales.map PriceScale.factor, hjson,
      hfields, coefficient_of_ofFields?_eq hc, rfl, ?_, factors_of_ofFields?_eq hc, rfl, ?_⟩
    · exact mt Word.eq_zero_iff.1 (Nat.ne_of_gt c.amplification.coefficient_pos)
    · rw [List.mem_map]
      rintro ⟨scale, -, hzero⟩
      exact absurd (Word.eq_zero_iff.1 hzero) (Nat.ne_of_gt scale.factor_pos)

/-- Three assets without tokens, on the default bound: the six other members in reverse order give the
configuration, and its own text is accepted. -/
theorem configurations_keep_through_texts_reversed :
    let c : Config := {
      assetCount := .lit 3
      amplification := ⟨.lit 300, by decide⟩
      fee := ⟨.lit 4⟩
      adminFee := ⟨.lit 5000⟩
      initial := .explicit [.lit 7, 0, .lit (2 ^ 128 - 1)]
      priceScales := [.one, ⟨.lit (10 ^ 30), by decide⟩, ⟨1, by decide⟩]
      tokenSupply := 0
      maxIterations := defaultMaxIterations }
    let fields : Json.Fields := (c.members.take 6).reverse
    c.IsListedBy fields ∧ decode? (String.ofList (Json.object fields).render) = some c ∧
      decode? (encode c) = some c ∧
      ∃ (json : Json) (fields : Json.Fields) (coefficient : Amount) (factors : List Amount),
        Json.parse? (encode c).toList = some json ∧ fields? json = some fields ∧
        fields.required? "amplification" = some coefficient ∧
        c.amplification.coefficient = coefficient ∧ coefficient ≠ 0 ∧
        fields.required? "price_scales" = some factors ∧
        c.priceScales.map PriceScale.factor = factors ∧ 0 ∉ factors := by
  intro c fields
  have hlisted : c.IsListedBy fields :=
    ⟨defaultMembers, List.Subset.refl _, (List.reverse_perm (c.members.take 6)).append_right _⟩
  obtain ⟨hconfig, -, -, -, -, hfields, haccepted⟩ := configurations_keep_through_texts
  exact ⟨hlisted, (hfields c fields hlisted).1, haccepted (encode c) c (hconfig c)⟩

end Config

end StablePool
