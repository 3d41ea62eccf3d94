import StablePool.Error

/-!
# Computations that may be refused

A checked computation ends with a value or with the first cause met on its way. The lemmas say
when a check, a look-up, a sequence of steps and a pass over a list succeed; nothing later needs
to open these definitions.
-/

namespace StablePool

/-- A computation that yields a value or is refused. -/
abbrev Checked := Except Error

namespace Checked

/-- A sequence of two steps succeeds exactly if both do. -/
theorem bind_eq_ok_iff {α β : Type} {first : Checked α} {next : α → Checked β} {b : β} :
    first >>= next = .ok b ↔ ∃ a, first = .ok a ∧ next a = .ok b := by
  cases first <;> simp [bind, Except.bind]

/-- A sequence of two steps is refused by its first step or by its second. -/
theorem bind_eq_error_iff {α β : Type} {first : Checked α} {next : α → Checked β} {cause : Error} :
    first >>= next = .error cause ↔
      first = .error cause ∨ ∃ a, first = .ok a ∧ next a = .error cause := by
  cases first <;> simp [bind, Except.bind]

/-- A computation that only hands on a value succeeds with it. -/
theorem pure_eq_ok_iff {α : Type} {a b : α} : (pure a : Checked α) = .ok b ↔ a = b := by
  simp [pure, Except.pure]

/-- A pass over a list succeeds with the results of its entries, all of which succeed. -/
theorem mapM_eq_ok_iff {α β : Type} {f : α → Checked β} {as : List α} {bs : List β} :
    as.mapM f = .ok bs ↔ as.map f = bs.map .ok := by
  induction as generalizing bs with
  | nil => cases bs <;> simp [pure, Except.pure]
  | cons a as ih =>
    cases bs with
    | nil => simp [bind_eq_ok_iff, pure, Except.pure]
    | cons b bs => simp [bind_eq_ok_iff, pure, Except.pure, ih]

/-- What is seen of a state that a list of steps leads to, if one successful step is seen to do the
same wherever it starts. -/
theorem view_eq_foldl_of_foldlM_eq_ok {α β γ : Type} {f : β → α → Checked β} (view : β → γ)
    (value : γ → α → γ) (hstep : ∀ s a t, f s a = .ok t → view t = value (view s) a)
    {as : List α} {start last : β} (h : as.foldlM f start = .ok last) :
    view last = as.foldl value (view start) := by
  induction as generalizing start with
  | nil => rw [pure_eq_ok_iff.1 h, List.foldl_nil]
  | cons a as ih =>
    rw [List.foldlM_cons] at h
    obtain ⟨next, hnext, hrest⟩ := bind_eq_ok_iff.1 h
    rw [ih hrest, hstep start a next hnext, List.foldl_cons]

/-- What a step asks of its entry holds of every entry of a list of steps that succeeds. -/
theorem forall_mem_of_foldlM_eq_ok {α β : Type} {f : β → α → Checked β} {P : α → Prop}
    (hstep : ∀ s a t, f s a = .ok t → P a) {as : List α} {start last : β}
    (h : as.foldlM f start = .ok last) : ∀ a ∈ as, P a := by
  induction as generalizing start with
  | nil => simp
  | cons a as ih =>
    rw [List.foldlM_cons] at h
    obtain ⟨next, hnext, hrest⟩ := bind_eq_ok_iff.1 h
    exact List.forall_mem_cons.2 ⟨hstep start a next hnext, ih hrest⟩

/-- A pass over a list yields one result for each entry. -/
theorem length_eq_of_mapM_eq_ok {α β : Type} {f : α → Checked β} {as : List α} {bs : List β}
    (h : as.mapM f = .ok bs) : bs.length = as.length := by
  simpa using congrArg List.length (mapM_eq_ok_iff.1 h).symm

/-- Each entry of a list has its own result in a pass over the list. -/
theorem exists_getElem?_of_mapM_eq_ok {α β : Type} {f : α → Checked β} {as : List α} {bs : List β}
    (h : as.mapM f = .ok bs) {k : Nat} {a : α} (ha : as[k]? = some a) :
    ∃ b, bs[k]? = some b ∧ f a = .ok b := by
  have hk := congrArg (fun results => results[k]?) (mapM_eq_ok_iff.1 h)
  simp only [List.getElem?_map, ha, Option.map_some] at hk
  obtain ⟨b, hb, hab⟩ := Option.map_eq_some_iff.1 hk.symm
  exact ⟨b, hb, hab.symm⟩

/-- Each result of a pass over a list is that of an entry. -/
theorem exists_mem_of_mapM_eq_ok {α β : Type} {f : α → Checked β} {as : List α} {bs : List β}
    (h : as.mapM f = .ok bs) {b : β} (hb : b ∈ bs) : ∃ a ∈ as, f a = .ok b := by
  have hresult : (.ok b : Checked β) ∈ as.map f := by
    rw [mapM_eq_ok_iff.1 h]
    exact List.mem_map_of_mem hb
  exact List.mem_map.1 hresult

/-- A pass over a list succeeds if each of its entries does. -/
theorem exists_mapM_eq_ok {α β : Type} {f : α → Checked β} {as : List α}
    (h : ∀ a ∈ as, ∃ b, f a = .ok b) : ∃ bs, as.mapM f = .ok bs := by
  induction as with
  | nil => exact ⟨[], rfl⟩
  | cons a as ih =>
    obtain ⟨b, hb⟩ := h a List.mem_cons_self
    obtain ⟨bs, hbs⟩ := ih fun c hc => h c (List.mem_cons_of_mem a hc)
    exact ⟨b :: bs, by simp [hb, hbs, bind, Except.bind, pure, Except.pure]⟩

/-- What is seen of the results of a pass, if each is seen to be a value of its entry. -/
theorem map_eq_of_mapM_eq_ok {α β γ : Type} {f : α → Checked β} (view : β → γ) (value : α → γ)
    (hstep : ∀ a b, f a = .ok b → view b = value a) {as : List α} {bs : List β}
    (h : as.mapM f = .ok bs) : bs.map view = as.map value := by
  induction as generalizing bs with
  | nil =>
    rw [List.mapM_nil] at h
    rw [← pure_eq_ok_iff.1 h, List.map_nil, List.map_nil]
  | cons a as ih =>
    rw [List.mapM_cons] at h
    obtain ⟨b, hb, h⟩ := bind_eq_ok_iff.1 h
    obtain ⟨rest, hrest, h⟩ := bind_eq_ok_iff.1 h
    rw [← pure_eq_ok_iff.1 h, List.map_cons, List.map_cons, hstep a b hb, ih hrest]

/-- Two entries at one index have their own result in a pass over both lists at once. -/
theorem exists_getElem?_of_mapM_zip_eq_ok {α β γ : Type} {f : α × β → Checked γ} {as : List α}
    {bs : List β} {cs : List γ} (h : (as.zip bs).mapM f = .ok cs) {k : Nat} {a : α} {b : β}
    (ha : as[k]? = some a) (hb : bs[k]? = some b) : ∃ c, cs[k]? = some c ∧ f (a, b) = .ok c :=
  exists_getElem?_of_mapM_eq_ok h (List.getElem?_zip_eq_some.2 ⟨ha, hb⟩)

end Checked

/-- Go on only if `condition` holds. -/
def ensure (condition : Prop) [Decidable condition] (otherwise : Error) : Checked Unit :=
  if condition then .ok () else .error otherwise

/-- A check is passed exactly if its condition holds. -/
theorem ensure_eq_ok_iff {condition : Prop} [Decidable condition] {otherwise : Error} {u : Unit} :
    ensure condition otherwise = .ok u ↔ condition := by
  by_cases h : condition <;> simp [ensure, h]

/-- A check is refused, with the given cause, exactly if its condition fails. -/
theorem ensure_eq_error_iff {condition : Prop} [Decidable condition] {otherwise cause : Error} :
    ensure condition otherwise = .error cause ↔ ¬ condition ∧ otherwise = cause := by
  by_cases h : condition <;> simp [ensure, h]

/-- The entry of a list at an asset index. -/
def entry {α : Type} (entries : List α) (index : Nat) : Checked α :=
  match entries[index]? with
  | some a => .ok a
  | none => .error (.invalidAsset index entries.length)

/-- A look-up succeeds exactly if the list has an entry there. -/
theorem entry_eq_ok_iff {α : Type} {entries : List α} {index : Nat} {a : α} :
    entry entries index = .ok a ↔ entries[index]? = some a := by
  unfold entry
  cases entries[index]? <;> simp

/-- A look-up is refused exactly beyond the end of the list. -/
theorem entry_eq_error_iff {α : Type} {entries : List α} {index : Nat} {cause : Error} :
    entry entries index = .error cause ↔
      entries.length ≤ index ∧ Error.invalidAsset index entries.length = cause := by
  rw [← List.getElem?_eq_none_iff]
  unfold entry
  cases entries[index]? <;> simp

end StablePool
