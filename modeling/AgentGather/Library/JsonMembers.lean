import AgentGather.Library.Json

/-!
# The members of a JSON object

Objects that are built member by member, where a member without a value is left out, and the
keys that stand in a value at any depth.
-/

namespace AgentGather.Library.Json

/-- `Object.keys`; the fields are listed in that order. -/
def keys : Json → List String
  | obj fields => fields.map Prod.fst
  | _ => []

/-- The members that have a value. -/
def presentFields : List (String × Option Json) → List (String × Json)
  | [] => []
  | (_, none) :: members => presentFields members
  | (name, some value) :: members => (name, value) :: presentFields members

def present (members : List (String × Option Json)) : Json := .obj (presentFields members)

/-- The object with the member set: where it stands, or behind the others. -/
def setField (name : String) (value : Json) : Json → Json
  | obj fields =>
      if fields.any (·.1 == name) then
        obj (fields.map fun field => if field.1 == name then (name, value) else field)
      else obj (fields ++ [(name, value)])
  | other => other

mutual

/-- The keys of the objects in a value. -/
def keysWithin : Json → List String
  | arr items => keysWithinItems items
  | obj fields => keysWithinFields fields
  | _ => []

def keysWithinItems : List Json → List String
  | [] => []
  | item :: items => keysWithin item ++ keysWithinItems items

def keysWithinFields : List (String × Json) → List String
  | [] => []
  | (name, value) :: fields => name :: (keysWithin value ++ keysWithinFields fields)

end

variable {members : List (String × Option Json)} {name key : String}

/-! ## What is present -/

theorem mem_presentFields {value : Json} :
    (name, value) ∈ presentFields members ↔ (name, some value) ∈ members := by
  induction members with
  | nil => simp [presentFields]
  | cons m members ih =>
      obtain ⟨other, found⟩ := m
      cases found with
      | none => simp [presentFields, ih]
      | some value' => simp [presentFields, ih]

theorem mem_keys_present : key ∈ (present members).keys ↔
    ∃ value, (key, some value) ∈ members := by
  rw [present, keys, List.mem_map]
  constructor
  · rintro ⟨⟨_, value⟩, hmem, rfl⟩
    exact ⟨value, mem_presentFields.mp hmem⟩
  · rintro ⟨value, hmem⟩
    exact ⟨(key, value), mem_presentFields.mpr hmem, rfl⟩

theorem find?_presentFields_of_not_mem (h : name ∉ members.map Prod.fst) :
    (presentFields members).reverse.find? (fun f => f.1 == name) = none := by
  rw [List.find?_eq_none]
  rintro ⟨other, value⟩ hmem heq
  obtain rfl : other = name := beq_iff_eq.mp heq
  exact h (List.mem_map_of_mem (mem_presentFields.mp (List.mem_reverse.mp hmem)))

/-- A member is found by its name. -/
theorem field?_present (h : (members.map Prod.fst).Nodup) :
    (present members).field? name = (members.lookup name).join := by
  change ((presentFields members).reverse.find? fun f => f.1 == name).map Prod.snd = _
  induction members with
  | nil => rfl
  | cons m members ih =>
      obtain ⟨other, found⟩ := m
      obtain ⟨hother, hrest⟩ := List.nodup_cons.mp h
      have ih := ih hrest
      rw [List.lookup_cons]
      by_cases hname : name = other
      · subst hname
        have hnone := find?_presentFields_of_not_mem hother
        cases found with
        | none => simp [presentFields, hnone]
        | some value => simp [presentFields, List.find?_append, hnone]
      · have hne : (name == other) = false := beq_eq_false_iff_ne.mpr hname
        have hne' : (other == name) = false := beq_eq_false_iff_ne.mpr (Ne.symm hname)
        rw [hne, ← ih]
        cases found with
        | none => rfl
        | some value => simp [presentFields, List.find?_append, hne']

theorem validFields_of_mem {fields : List (String × Json)}
    (h : ∀ f ∈ fields, f.2.Valid) : ValidFields fields := by
  induction fields with
  | nil => trivial
  | cons f fields ih =>
      exact ⟨h f List.mem_cons_self, ih fun g hg => h g (List.mem_cons_of_mem f hg)⟩

theorem validItems_of_mem {items : List Json} (h : ∀ item ∈ items, item.Valid) :
    ValidItems items := by
  induction items with
  | nil => trivial
  | cons item items ih =>
      exact ⟨h item List.mem_cons_self, ih fun g hg => h g (List.mem_cons_of_mem item hg)⟩

theorem valid_present (h : ∀ name value, (name, some value) ∈ members → value.Valid) :
    (present members).Valid :=
  validFields_of_mem fun f hf => h f.1 f.2 (mem_presentFields.mp hf)

/-! ## Keys at any depth -/

theorem mem_keysWithinItems {items : List Json} :
    key ∈ keysWithinItems items ↔ ∃ item ∈ items, key ∈ keysWithin item := by
  induction items with
  | nil => simp [keysWithinItems]
  | cons item items ih => simp [keysWithinItems, ih]

theorem mem_keysWithinFields {fields : List (String × Json)} :
    key ∈ keysWithinFields fields ↔
      ∃ f ∈ fields, key = f.1 ∨ key ∈ keysWithin f.2 := by
  induction fields with
  | nil => simp [keysWithinFields]
  | cons f fields ih =>
      obtain ⟨name, value⟩ := f
      simp [keysWithinFields, ih, or_assoc]

theorem mem_keysWithin_arr {items : List Json} :
    key ∈ keysWithin (arr items) ↔ ∃ item ∈ items, key ∈ keysWithin item := mem_keysWithinItems

/-- The keys within an object are those of its members and those within their values. -/
theorem mem_keysWithin_present : key ∈ keysWithin (present members) ↔
    ∃ name value, (name, some value) ∈ members ∧ (key = name ∨ key ∈ keysWithin value) := by
  rw [present, keysWithin, mem_keysWithinFields]
  constructor
  · rintro ⟨⟨name, value⟩, hmem, hkey⟩
    exact ⟨name, value, mem_presentFields.mp hmem, hkey⟩
  · rintro ⟨name, value, hmem, hkey⟩
    exact ⟨(name, value), mem_presentFields.mpr hmem, hkey⟩

end AgentGather.Library.Json
