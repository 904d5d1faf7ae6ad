import Mathlib.Data.List.Nodup

/-!
# Tables of rows with keys

A table is the list of its rows; every row has a key.  A row is found by its key, replaced
where it stands or added behind the others, and taken out.  Whatever is done for one key
leaves the rows of the other keys as they are and in their order.
-/

namespace AgentGather.Library.Table

variable {κ α : Type} [DecidableEq κ] (key : α → κ)

/-- The first row with key `k`. -/
def find (k : κ) (rows : List α) : Option α := rows.find? fun r => key r = k

/-- Change the first row with key `k`. -/
def modify (k : κ) (f : α → α) : List α → List α
  | [] => []
  | r :: rows => if key r = k then f r :: rows else r :: modify k f rows

/-- Replace the first row with the key of `row`, or add `row` behind the others. -/
def upsert (row : α) : List α → List α
  | [] => [row]
  | r :: rows => if key r = key row then row :: rows else r :: upsert row rows

/-- The rows whose keys are not among `ks`, in their order. -/
def besides (ks : List κ) (rows : List α) : List α := rows.filter fun r => key r ∉ ks

variable {key}

theorem find_cons (k : κ) (r : α) (rows : List α) :
    find key k (r :: rows) = if key r = k then some r else find key k rows := by
  by_cases h : key r = k
  · simp [find, h]
  · simp [find, h]

theorem key_of_find {k : κ} {rows : List α} {r : α} (h : find key k rows = some r) :
    key r = k := by
  simpa using List.find?_some h

theorem mem_of_find {k : κ} {rows : List α} {r : α} (h : find key k rows = some r) :
    r ∈ rows := List.mem_of_find?_eq_some h

theorem find_eq_none_iff {k : κ} {rows : List α} :
    find key k rows = none ↔ k ∉ rows.map key := by
  simp [find]

theorem isSome_find_iff {k : κ} {rows : List α} :
    (find key k rows).isSome ↔ k ∈ rows.map key := by
  rw [← not_iff_not, ← find_eq_none_iff, Option.not_isSome_iff_eq_none]

/-- In a table of distinct keys, a row is found by its key. -/
theorem find_of_mem {rows : List α} (h : (rows.map key).Nodup) {r : α} (hr : r ∈ rows) :
    find key (key r) rows = some r := by
  induction rows with
  | nil => cases hr
  | cons s rows ih =>
      rw [List.map_cons, List.nodup_cons] at h
      rw [find_cons]
      rcases List.mem_cons.mp hr with rfl | hr
      · rw [if_pos rfl]
      · rw [if_neg, ih h.2 hr]
        intro hs
        exact h.1 (hs ▸ List.mem_map_of_mem hr)

/-! ## Changing a row -/

theorem find_modify_self (k : κ) {f : α → α} (hf : ∀ r, key (f r) = key r)
    (rows : List α) : find key k (modify key k f rows) = (find key k rows).map f := by
  induction rows with
  | nil => rfl
  | cons r rows ih =>
      rw [modify, find_cons]
      split
      · rename_i hr
        rw [find_cons, if_pos ((hf r).trans hr), Option.map_some]
      · rename_i hr
        rw [find_cons, if_neg hr, ih]

theorem map_key_modify (k : κ) {f : α → α} (hf : ∀ r, key (f r) = key r)
    (rows : List α) : (modify key k f rows).map key = rows.map key := by
  induction rows with
  | nil => rfl
  | cons r rows ih =>
      rw [modify]
      split
      · rw [List.map_cons, List.map_cons, hf]
      · rw [List.map_cons, List.map_cons, ih]

theorem besides_modify {k : κ} {f : α → α} (hf : ∀ r, key (f r) = key r) {ks : List κ}
    (hk : k ∈ ks) (rows : List α) :
    besides key ks (modify key k f rows) = besides key ks rows := by
  induction rows with
  | nil => rfl
  | cons r rows ih =>
      rw [modify]
      split
      · rename_i hr
        have hin : key r ∈ ks := hr ▸ hk
        simp [besides, hf, hin]
      · simp only [besides] at ih ⊢
        rw [List.filter_cons, List.filter_cons, ih]

theorem modify_of_not_mem {k : κ} (f : α → α) {rows : List α} (h : k ∉ rows.map key) :
    modify key k f rows = rows := by
  induction rows with
  | nil => rfl
  | cons r rows ih =>
      rw [List.map_cons, List.mem_cons, not_or] at h
      rw [modify, if_neg (Ne.symm h.1), ih h.2]

/-- In a table of distinct keys the first row with a key is the only one. -/
theorem modify_eq_map {k : κ} (f : α → α) {rows : List α} (h : (rows.map key).Nodup) :
    modify key k f rows = rows.map fun r => if key r = k then f r else r := by
  induction rows with
  | nil => rfl
  | cons r rows ih =>
      rw [List.map_cons, List.nodup_cons] at h
      rw [modify, List.map_cons]
      by_cases hr : key r = k
      · rw [if_pos hr, if_pos hr]
        congr 1
        have hsame : modify key k f rows = rows := modify_of_not_mem f (hr ▸ h.1)
        rw [← ih h.2, hsame]
      · rw [if_neg hr, if_neg hr, ih h.2]

/-- Keys one after the other, with a change that changes nothing the second time. -/
theorem foldl_modify_eq_map {f : α → α} (hf : ∀ r, key (f r) = key r)
    (hidem : ∀ r, f (f r) = f r) (ks : List κ) {rows : List α} (h : (rows.map key).Nodup) :
    ks.foldl (fun rows k => modify key k f rows) rows =
      rows.map fun r => if key r ∈ ks then f r else r := by
  induction ks generalizing rows with
  | nil => simp
  | cons k ks ih =>
      rw [List.foldl_cons, ih (by rwa [map_key_modify k hf]), modify_eq_map f h, List.map_map]
      apply List.map_congr_left
      intro r _
      simp only [Function.comp_apply, List.mem_cons]
      by_cases hk : key r = k
      · rw [if_pos hk, if_pos (Or.inl hk), hf, hidem, ite_self]
      · rw [if_neg hk]
        simp only [hk, false_or]

/-! ## Replacing or adding a row -/

theorem find_upsert_self (row : α) (rows : List α) :
    find key (key row) (upsert key row rows) = some row := by
  induction rows with
  | nil => simp [upsert, find]
  | cons r rows ih =>
      rw [upsert]
      split
      · rw [find_cons, if_pos rfl]
      · rename_i hr
        rw [find_cons, if_neg hr, ih]

theorem map_key_upsert_of_mem {row : α} {rows : List α} (h : key row ∈ rows.map key) :
    (upsert key row rows).map key = rows.map key := by
  induction rows with
  | nil => cases h
  | cons r rows ih =>
      rw [upsert]
      split
      · rename_i hr
        rw [List.map_cons, List.map_cons, hr]
      · rename_i hr
        rcases List.mem_cons.mp h with h | h
        · exact absurd h.symm hr
        · rw [List.map_cons, List.map_cons, ih h]

theorem upsert_of_not_mem {row : α} {rows : List α} (h : key row ∉ rows.map key) :
    upsert key row rows = rows ++ [row] := by
  induction rows with
  | nil => rfl
  | cons r rows ih =>
      rw [List.map_cons, List.mem_cons, not_or] at h
      rw [upsert, if_neg (Ne.symm h.1), ih h.2, List.cons_append]

theorem mem_map_key_upsert {k : κ} {rows : List α} (h : k ∈ rows.map key) (row : α) :
    k ∈ (upsert key row rows).map key := by
  by_cases hmem : key row ∈ rows.map key
  · rw [map_key_upsert_of_mem hmem]
    exact h
  · rw [upsert_of_not_mem hmem, List.map_append]
    exact List.mem_append_left _ h

theorem nodup_upsert {rows : List α} (h : (rows.map key).Nodup) (row : α) :
    ((upsert key row rows).map key).Nodup := by
  by_cases hmem : key row ∈ rows.map key
  · rw [map_key_upsert_of_mem hmem]
    exact h
  · rw [upsert_of_not_mem hmem, List.map_append]
    exact h.append (List.nodup_singleton _) (by simpa using hmem)

theorem besides_upsert {row : α} {ks : List κ} (hk : key row ∈ ks) (rows : List α) :
    besides key ks (upsert key row rows) = besides key ks rows := by
  induction rows with
  | nil => simp [upsert, besides, hk]
  | cons r rows ih =>
      rw [upsert]
      split
      · rename_i hr
        have hin : key r ∈ ks := hr ▸ hk
        simp [besides, hk, hin]
      · simp only [besides] at ih ⊢
        rw [List.filter_cons, List.filter_cons, ih]

/-! ## The other rows -/

/-- Tables with the same rows besides those of some keys find the same for the other
keys. -/
theorem find_eq_of_besides {ks : List κ} {rows rows' : List α}
    (h : besides key ks rows' = besides key ks rows) {k : κ} (hk : k ∉ ks) :
    find key k rows' = find key k rows := by
  have hfind (rows : List α) : find key k (besides key ks rows) = find key k rows := by
    rw [find, find, besides, List.find?_filter]
    congr 1
    funext r
    by_cases hr : key r = k
    · simp [hr, hk]
    · simp [hr]
  rw [← hfind, h, hfind]

theorem besides_map {ks : List κ} {f : α → α} (hf : ∀ r, key (f r) = key r)
    (hsame : ∀ r, key r ∉ ks → f r = r) (rows : List α) :
    besides key ks (rows.map f) = besides key ks rows := by
  induction rows with
  | nil => rfl
  | cons r rows ih =>
      simp only [besides, List.map_cons] at ih ⊢
      rw [List.filter_cons, List.filter_cons, ih, hf]
      by_cases hr : key r ∈ ks
      · simp [hr]
      · simp [hr, hsame r hr]

theorem besides_besides (ks : List κ) (rows : List α) :
    besides key ks (besides key ks rows) = besides key ks rows := by
  simp [besides, List.filter_filter]

/-- Keys one after the other. -/
theorem foldl_besides (ks : List κ) (rows : List α) :
    ks.foldl (fun rows k => besides key [k] rows) rows = besides key ks rows := by
  induction ks generalizing rows with
  | nil => simp [besides]
  | cons k ks ih =>
      rw [List.foldl_cons, ih, besides, besides, besides, List.filter_filter]
      apply List.filter_congr
      intro r _
      by_cases hk : key r = k
      · simp [hk]
      · simp [hk]

/-- The rows of some keys are as many as the keys that have a row. -/
theorem countP_mem_keys {ks : List κ} (hks : ks.Nodup) {rows : List α}
    (h : (rows.map key).Nodup) :
    rows.countP (fun r => key r ∈ ks) =
      (ks.filter fun k => (find key k rows).isSome).length := by
  have hperm : ((rows.map key).filter (· ∈ ks)).Perm
      (ks.filter fun k => (find key k rows).isSome) := by
    rw [List.perm_ext_iff_of_nodup (h.filter _) (hks.filter _)]
    intro k
    rw [List.mem_filter, List.mem_filter, isSome_find_iff, decide_eq_true_iff]
    exact and_comm
  rw [← hperm.length_eq, List.filter_map, List.length_map, List.countP_eq_length_filter]
  rfl

theorem find_map (k : κ) {f : α → α} (hf : ∀ r, key (f r) = key r) (rows : List α) :
    find key k (rows.map f) = (find key k rows).map f := by
  rw [find, List.find?_map, find]
  congr 2
  funext r
  simp [hf]

theorem find_besides_of_mem {ks : List κ} {k : κ} (hk : k ∈ ks) (rows : List α) :
    find key k (besides key ks rows) = none := by
  rw [find_eq_none_iff]
  intro hmem
  obtain ⟨r, hr, rfl⟩ := List.mem_map.mp hmem
  have hout := (List.mem_filter.mp hr).2
  simp [hk] at hout

theorem nodup_besides {rows : List α} (h : (rows.map key).Nodup) (ks : List κ) :
    ((besides key ks rows).map key).Nodup :=
  h.sublist (List.filter_sublist.map key)

end AgentGather.Library.Table
