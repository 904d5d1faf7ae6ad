import Mathlib.Data.List.Nodup

/-!
# Maps that remember insertion order

A map whose entries are listed in the order their keys were first set.  Setting a key
that is there keeps its place; deleting a key and setting it again moves it to the end.
That no key is listed twice is part of the type.
-/

namespace AgentGather.Library

/-- Entries in insertion order, no key twice. -/
structure OrderedMap (κ α : Type) where
  entries : List (κ × α)
  distinct : (entries.map Prod.fst).Nodup

namespace OrderedMap

variable {κ α : Type}

def empty : OrderedMap κ α := ⟨[], List.nodup_nil⟩

def keys (m : OrderedMap κ α) : List κ := m.entries.map Prod.fst

def values (m : OrderedMap κ α) : List α := m.entries.map Prod.snd

theorem keys_nodup (m : OrderedMap κ α) : m.keys.Nodup := m.distinct

@[ext] theorem ext_entries {m m' : OrderedMap κ α} (h : m.entries = m'.entries) : m = m' := by
  cases m
  cases m'
  cases h
  rfl

variable [DecidableEq κ]

def get? (m : OrderedMap κ α) (k : κ) : Option α := m.entries.lookup k

/-- The entries with `k` set to `a`. -/
def setEntries (k : κ) (a : α) (entries : List (κ × α)) : List (κ × α) :=
  if k ∈ entries.map Prod.fst then entries.map fun e => if e.1 = k then (k, a) else e
  else entries ++ [(k, a)]

theorem map_fst_replace (k : κ) (a : α) (entries : List (κ × α)) :
    (entries.map fun e => if e.1 = k then (k, a) else e).map Prod.fst =
      entries.map Prod.fst := by
  rw [List.map_map]
  apply List.map_congr_left
  intro e _
  by_cases he : e.1 = k
  · simp [he]
  · simp [he]

theorem setEntries_distinct {k : κ} {a : α} {entries : List (κ × α)}
    (h : (entries.map Prod.fst).Nodup) : ((setEntries k a entries).map Prod.fst).Nodup := by
  unfold setEntries
  split
  · rw [map_fst_replace]
    exact h
  · rename_i hk
    rw [List.map_append]
    exact h.append (List.nodup_singleton k) (by simpa using hk)

/-- Replace the value of `k` where it stands, or add it at the end. -/
def set (m : OrderedMap κ α) (k : κ) (a : α) : OrderedMap κ α :=
  ⟨setEntries k a m.entries, setEntries_distinct m.distinct⟩

def delete (m : OrderedMap κ α) (k : κ) : OrderedMap κ α where
  entries := m.entries.filter fun e => e.1 ≠ k
  distinct := m.distinct.sublist (List.filter_sublist.map Prod.fst)

/-- Delete the keys of which `p` holds. -/
def discard (m : OrderedMap κ α) (p : κ → Bool) : OrderedMap κ α where
  entries := m.entries.filter fun e => !p e.1
  distinct := m.distinct.sublist (List.filter_sublist.map Prod.fst)

/-! ## Keys -/

theorem entries_set_of_mem {m : OrderedMap κ α} {k : κ} (h : k ∈ m.keys) (a : α) :
    (m.set k a).entries = m.entries.map fun e => if e.1 = k then (k, a) else e := if_pos h

theorem entries_set_of_not_mem {m : OrderedMap κ α} {k : κ} (h : k ∉ m.keys) (a : α) :
    (m.set k a).entries = m.entries ++ [(k, a)] := if_neg h

theorem keys_set_of_mem {m : OrderedMap κ α} {k : κ} (h : k ∈ m.keys) (a : α) :
    (m.set k a).keys = m.keys := by
  have hk : k ∈ m.entries.map Prod.fst := h
  simp only [keys, set, setEntries, if_pos hk, map_fst_replace]

theorem keys_set_of_not_mem {m : OrderedMap κ α} {k : κ} (h : k ∉ m.keys) (a : α) :
    (m.set k a).keys = m.keys ++ [k] := by
  have hk : k ∉ m.entries.map Prod.fst := h
  simp only [keys, set, setEntries, if_neg hk, List.map_append, List.map_cons, List.map_nil]

theorem keys_delete (m : OrderedMap κ α) (k : κ) :
    (m.delete k).keys = m.keys.filter fun j => j ≠ k := by
  simp only [keys, delete, List.filter_map]
  rfl

/-! ## Looking up -/

theorem lookup_eq_some_iff {entries : List (κ × α)} (h : (entries.map Prod.fst).Nodup)
    {k : κ} {a : α} : entries.lookup k = some a ↔ (k, a) ∈ entries := by
  induction entries with
  | nil => simp
  | cons e entries ih =>
      rw [List.map_cons, List.nodup_cons] at h
      obtain ⟨j, b⟩ := e
      rw [List.lookup_cons, List.mem_cons]
      by_cases hk : k = j
      · subst hk
        have hnot : (k, a) ∉ entries := fun hmem =>
          h.1 (List.mem_map.mpr ⟨(k, a), hmem, rfl⟩)
        simp [hnot, eq_comm]
      · have hk' : (k == j) = false := beq_eq_false_iff_ne.mpr hk
        simp [hk, hk', ih h.2]

theorem get?_eq_some_iff {m : OrderedMap κ α} {k : κ} {a : α} :
    m.get? k = some a ↔ (k, a) ∈ m.entries := lookup_eq_some_iff m.distinct

theorem mem_keys_of_get? {m : OrderedMap κ α} {k : κ} {a : α} (h : m.get? k = some a) :
    k ∈ m.keys := List.mem_map.mpr ⟨(k, a), get?_eq_some_iff.mp h, rfl⟩

theorem get?_eq_none_iff {m : OrderedMap κ α} {k : κ} : m.get? k = none ↔ k ∉ m.keys := by
  constructor
  · intro h hmem
    obtain ⟨⟨j, a⟩, he, rfl⟩ := List.mem_map.mp hmem
    rw [get?_eq_some_iff.mpr he] at h
    cases h
  · intro h
    cases ha : m.get? k with
    | none => rfl
    | some a => exact absurd (mem_keys_of_get? ha) h

theorem mem_values_iff {m : OrderedMap κ α} {a : α} :
    a ∈ m.values ↔ ∃ k, m.get? k = some a := by
  constructor
  · intro h
    obtain ⟨⟨k, b⟩, he, rfl⟩ := List.mem_map.mp h
    exact ⟨k, get?_eq_some_iff.mpr he⟩
  · rintro ⟨k, h⟩
    exact List.mem_map.mpr ⟨(k, a), get?_eq_some_iff.mp h, rfl⟩

@[simp] theorem get?_empty (k : κ) : (empty : OrderedMap κ α).get? k = none := rfl

theorem get?_set_self (m : OrderedMap κ α) (k : κ) (a : α) :
    (m.set k a).get? k = some a := by
  rw [get?_eq_some_iff]
  show (k, a) ∈ setEntries k a m.entries
  unfold setEntries
  split
  · rename_i hk
    obtain ⟨e, he, rfl⟩ := List.mem_map.mp hk
    exact List.mem_map.mpr ⟨e, he, by simp⟩
  · simp

theorem get?_set_ne (m : OrderedMap κ α) {k j : κ} (a : α) (h : j ≠ k) :
    (m.set k a).get? j = m.get? j := by
  apply Option.ext
  intro b
  rw [get?_eq_some_iff, get?_eq_some_iff]
  show (j, b) ∈ setEntries k a m.entries ↔ _
  unfold setEntries
  split
  · constructor
    · intro hmem
      obtain ⟨e, he, heq⟩ := List.mem_map.mp hmem
      by_cases hk : e.1 = k
      · rw [if_pos hk] at heq
        exact absurd (Prod.mk.inj heq).1.symm h
      · rw [if_neg hk] at heq
        exact heq ▸ he
    · intro he
      exact List.mem_map.mpr ⟨(j, b), he, if_neg h⟩
  · simp [h]

theorem get?_set (m : OrderedMap κ α) (k j : κ) (a : α) :
    (m.set k a).get? j = if j = k then some a else m.get? j := by
  by_cases h : j = k
  · subst h
    rw [if_pos rfl, get?_set_self]
  · rw [if_neg h, get?_set_ne m a h]

/-- Of two values set for one key the second counts. -/
theorem set_set (m : OrderedMap κ α) (k : κ) (a b : α) : (m.set k a).set k b = m.set k b := by
  apply ext_entries
  have hmem : k ∈ (setEntries k a m.entries).map Prod.fst := mem_keys_of_get? (get?_set_self m k a)
  change setEntries k b (setEntries k a m.entries) = setEntries k b m.entries
  rw [setEntries, if_pos hmem, setEntries, setEntries]
  by_cases hk : k ∈ m.entries.map Prod.fst
  · rw [if_pos hk, if_pos hk, List.map_map]
    apply List.map_congr_left
    intro e _
    by_cases he : e.1 = k
    · simp [he]
    · simp [he]
  · rw [if_neg hk, if_neg hk, List.map_append]
    congr 1
    · conv_rhs => rw [← List.map_id m.entries]
      apply List.map_congr_left
      intro e he
      have hne : e.1 ≠ k := by
        rintro rfl
        exact hk (List.mem_map_of_mem he)
      rw [if_neg hne, id_eq]
    · simp

/-- A key that is set under a condition. -/
theorem get?_ite_set (m : OrderedMap κ α) (k j : κ) (a : α) (p : Prop) [Decidable p] :
    (if p then m.set k a else m).get? j = if j = k ∧ p then some a else m.get? j := by
  by_cases hp : p
  · rw [if_pos hp, get?_set]
    simp [hp]
  · rw [if_neg hp]
    simp [hp]

theorem get?_delete_self (m : OrderedMap κ α) (k : κ) : (m.delete k).get? k = none := by
  rw [get?_eq_none_iff, keys_delete]
  simp

theorem get?_delete_ne (m : OrderedMap κ α) {k j : κ} (h : j ≠ k) :
    (m.delete k).get? j = m.get? j := by
  apply Option.ext
  intro b
  rw [get?_eq_some_iff, get?_eq_some_iff]
  simp [delete, h]

theorem get?_delete (m : OrderedMap κ α) (k j : κ) :
    (m.delete k).get? j = if j = k then none else m.get? j := by
  by_cases h : j = k
  · subst h
    rw [if_pos rfl, get?_delete_self]
  · rw [if_neg h, get?_delete_ne m h]

theorem get?_discard (m : OrderedMap κ α) (p : κ → Bool) (k : κ) :
    (m.discard p).get? k = if p k = true then none else m.get? k := by
  apply Option.ext
  intro b
  rw [get?_eq_some_iff]
  by_cases hp : p k = true
  · simp [discard, hp]
  · rw [if_neg hp, get?_eq_some_iff]
    simp [discard, hp]

/-! ## Setting one after the other -/

section Folds

variable {β : Type} {key : β → κ} {value : OrderedMap κ α → β → α}

/-- Set the key of each item, with what `value` makes of it and the map so far. -/
def setAll (key : β → κ) (value : OrderedMap κ α → β → α) (m : OrderedMap κ α)
    (items : List β) : OrderedMap κ α :=
  items.foldl (fun m x => m.set (key x) (value m x)) m

theorem mem_keys_set {m : OrderedMap κ α} {k j : κ} {a : α} :
    j ∈ (m.set k a).keys ↔ j ∈ m.keys ∨ j = k := by
  by_cases hk : k ∈ m.keys
  · rw [keys_set_of_mem hk]
    constructor
    · exact .inl
    · rintro (hj | rfl)
      · exact hj
      · exact hk
  · rw [keys_set_of_not_mem hk, List.mem_append, List.mem_singleton]

theorem mem_keys_setAll {m : OrderedMap κ α} {items : List β} {k : κ} :
    k ∈ (setAll key value m items).keys ↔ k ∈ m.keys ∨ k ∈ items.map key := by
  induction items generalizing m with
  | nil => simp [setAll]
  | cons x items ih =>
      change k ∈ (setAll key value (m.set (key x) (value m x)) items).keys ↔ _
      rw [ih, mem_keys_set, List.map_cons, List.mem_cons, or_assoc]

/-- New keys come behind those there are, in their order. -/
theorem keys_setAll {m : OrderedMap κ α} {items : List β} (h : (items.map key).Nodup) :
    (setAll key value m items).keys = m.keys ++ (items.map key).filter (· ∉ m.keys) := by
  induction items generalizing m with
  | nil => simp [setAll]
  | cons x items ih =>
      obtain ⟨hx, h⟩ := List.nodup_cons.mp h
      change (setAll key value (m.set (key x) (value m x)) items).keys = _
      rw [ih h, List.map_cons, List.filter_cons]
      by_cases hk : key x ∈ m.keys
      · simp only [keys_set_of_mem hk, hk, not_true_eq_false, decide_false, if_neg,
          Bool.false_eq_true, not_false_eq_true]
      · simp only [keys_set_of_not_mem hk, hk, not_false_eq_true, decide_true, if_true,
          List.append_assoc, List.cons_append, List.nil_append, List.mem_append,
          List.mem_singleton]
        congr 2
        apply List.filter_congr
        intro k hmem
        have hne : k ≠ key x := fun heq => hx (heq ▸ hmem)
        simp [hne]

theorem get?_setAll_of_not_mem {m : OrderedMap κ α} {items : List β} {k : κ}
    (h : k ∉ items.map key) : (setAll key value m items).get? k = m.get? k := by
  induction items generalizing m with
  | nil => rfl
  | cons x items ih =>
      rw [List.map_cons, List.mem_cons, not_or] at h
      change (setAll key value (m.set (key x) (value m x)) items).get? k = _
      rw [ih h.2, get?_set_ne _ _ h.1]

/-- Of items of one key the last is found. -/
theorem get?_setAll_latest {v : β → α} {m : OrderedMap κ α} {items : List β} {k : κ} :
    (setAll key (fun _ x => v x) m items).get? k =
      ((items.reverse.find? fun x => key x = k).map v).or (m.get? k) := by
  induction items generalizing m with
  | nil => rfl
  | cons x items ih =>
      change (setAll key (fun _ x => v x) (m.set (key x) (v x)) items).get? k = _
      rw [ih, get?_set, List.reverse_cons, List.find?_append]
      cases items.reverse.find? fun x => key x = k with
      | some y => rfl
      | none =>
          by_cases hk : k = key x
          · simp [hk]
          · simp [hk, Ne.symm hk]

/-- What is set for an item is made of it and of what was there for its key. -/
theorem exists_get?_setAll {m : OrderedMap κ α} {items : List β} (h : (items.map key).Nodup)
    {x : β} (hx : x ∈ items) :
    ∃ m', m'.get? (key x) = m.get? (key x) ∧
      (setAll key value m items).get? (key x) = some (value m' x) := by
  induction items generalizing m with
  | nil => cases hx
  | cons y items ih =>
      obtain ⟨hy, h⟩ := List.nodup_cons.mp h
      change ∃ m', _ ∧ (setAll key value (m.set (key y) (value m y)) items).get? _ = _
      rcases List.mem_cons.mp hx with rfl | hx
      · exact ⟨m, rfl, by rw [get?_setAll_of_not_mem hy, get?_set_self]⟩
      · obtain ⟨m', hm', hget⟩ := ih h (m := m.set (key y) (value m y)) hx
        have hne : key x ≠ key y := fun heq => hy (heq ▸ List.mem_map_of_mem hx)
        exact ⟨m', hm'.trans (get?_set_ne _ _ hne), hget⟩

/-- The values name their keys. -/
def Names (f : α → κ) (m : OrderedMap κ α) : Prop := ∀ k a, m.get? k = some a → f a = k

theorem names_setAll {f : α → κ} (hf : ∀ m x, f (value m x) = key x) {m : OrderedMap κ α}
    (h : Names f m) (items : List β) : Names f (setAll key value m items) := by
  induction items generalizing m with
  | nil => exact h
  | cons x items ih =>
      apply ih (m := m.set (key x) (value m x))
      intro k a ha
      rw [get?_set] at ha
      split at ha
      · rename_i hk
        rw [← Option.some.inj ha, hf, hk]
      · exact h k a ha

theorem map_values {f : α → κ} {m : OrderedMap κ α} (h : Names f m) :
    m.values.map f = m.keys := by
  rw [values, keys, List.map_map]
  apply List.map_congr_left
  intro e he
  exact h e.1 e.2 (get?_eq_some_iff.mpr he)

theorem names_empty (f : α → κ) : Names f empty := fun _ _ h => nomatch h

end Folds

/-! ## Selecting entries -/

/-- What `value` selects of the entries, under new keys. -/
def select {β κ' : Type} [DecidableEq κ'] (key : κ → κ') (value : κ → α → Option β)
    (entries : List (κ × α)) : OrderedMap κ' β :=
  entries.foldl (fun m e => match value e.1 e.2 with
    | none => m
    | some b => m.set (key e.1) b) .empty

/-- Entries of different keys that stay are selected each on its own. -/
theorem get?_select {β : Type} {key : κ → κ} {value : κ → α → Option β}
    {entries : List (κ × α)} (hnodup : (entries.map Prod.fst).Nodup)
    (hkey : ∀ k ∈ entries.map Prod.fst, key k = k) (k : κ) :
    (select key value entries).get? k = (entries.lookup k).bind (value k) := by
  have hfold (m : OrderedMap κ β) (entries : List (κ × α))
      (hnodup : (entries.map Prod.fst).Nodup) (hkey : ∀ k ∈ entries.map Prod.fst, key k = k) :
      (entries.foldl (fun m e => match value e.1 e.2 with
        | none => m
        | some b => m.set (key e.1) b) m).get? k =
        ((entries.lookup k).bind (value k)).or (m.get? k) := by
    induction entries generalizing m with
    | nil => rfl
    | cons e entries ih =>
        obtain ⟨j, a⟩ := e
        obtain ⟨hj, hnodup⟩ := List.nodup_cons.mp hnodup
        rw [List.foldl_cons, ih _ hnodup fun i hi => hkey i (List.mem_cons_of_mem _ hi)]
        have hself : key j = j := hkey j List.mem_cons_self
        by_cases hk : k = j
        · subst hk
          have hnone : entries.lookup k = none := by
            rw [List.lookup_eq_none_iff]
            intro p hp
            have hne : k ≠ p.1 := by
              rintro rfl
              exact hj (List.mem_map.mpr ⟨p, hp, rfl⟩)
            simpa using hne
          rw [hnone, List.lookup_cons_self, hself]
          cases hvalue : value k a with
          | none => simp [hvalue]
          | some b => simp [hvalue, get?_set_self]
        · have hlookup : ((j, a) :: entries).lookup k = entries.lookup k := by
            rw [List.lookup_cons, beq_eq_false_iff_ne.mpr hk]
          rw [hlookup, hself]
          cases value j a with
          | none => rfl
          | some b => exact congrArg _ (get?_set_ne m b hk)
  rw [select, hfold _ entries hnodup hkey]
  simp [get?, empty]

end OrderedMap

end AgentGather.Library
