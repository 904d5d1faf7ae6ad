import Mathlib.Data.Finset.Sort

/-!
# The newest of a set

Of a finite set of ids, the `n` highest in ascending order: those with fewer than `n` ids of
the set above them.  Dropping from the front of an ascending list keeps its newest, and ids
that are not among the newest of a set may be left out of it beforehand.
-/

namespace AgentGather.Library

variable {ι : Type} [LinearOrder ι]

/-- How many ids of the set are above `i`. -/
def above (U : Finset ι) (i : ι) : Nat := (U.filter (i < ·)).card

/-- `ids` are the `n` highest of the set, in ascending order. -/
structure Newest (n : Nat) (U : Finset ι) (ids : List ι) : Prop where
  ascending : ids.Pairwise (· < ·)
  mem_iff : ∀ i, i ∈ ids ↔ i ∈ U ∧ above U i < n

theorem above_le_of_subset {U V : Finset ι} (h : U ⊆ V) (i : ι) : above U i ≤ above V i :=
  Finset.card_le_card (Finset.filter_subset_filter _ h)

theorem above_le_of_le (U : Finset ι) {i j : ι} (h : i ≤ j) : above U j ≤ above U i :=
  Finset.card_le_card (Finset.monotone_filter_right _ fun _ _ hj => lt_of_le_of_lt h hj)

/-- Above an id of an ascending list are the ids behind it. -/
theorem above_toFinset {l r : List ι} {i : ι} (h : (l ++ i :: r).Pairwise (· < ·)) :
    above (l ++ i :: r).toFinset i = r.length := by
  obtain ⟨-, hright, hcross⟩ := List.pairwise_append.mp h
  obtain ⟨hi, hr⟩ := List.pairwise_cons.mp hright
  have hfilter : (l ++ i :: r).toFinset.filter (i < ·) = r.toFinset := by
    ext j
    simp only [Finset.mem_filter, List.mem_toFinset, List.mem_append, List.mem_cons]
    constructor
    · rintro ⟨hj | rfl | hj, hlt⟩
      · exact absurd (hcross j hj i List.mem_cons_self) (not_lt_of_gt hlt)
      · exact absurd hlt (lt_irrefl _)
      · exact hj
    · exact fun hj => ⟨.inr (.inr hj), hi j hj⟩
  have hnodup : r.Nodup := hr.imp fun hlt => ne_of_lt hlt
  rw [above, hfilter, List.toFinset_card_of_nodup hnodup]

/-- Dropping all but the last `n` of an ascending list keeps its newest. -/
theorem newest_drop {l : List ι} (h : l.Pairwise (· < ·)) (n : Nat) :
    Newest n l.toFinset (l.drop (l.length - n)) where
  ascending := h.sublist (List.drop_sublist _ _)
  mem_iff i := by
    rw [List.mem_toFinset]
    have hsplit (hi : i ∈ l) : i ∈ l.drop (l.length - n) ↔ above l.toFinset i < n := by
      obtain ⟨before, after, rfl⟩ := List.append_of_mem hi
      have hnodup : (before ++ i :: after).Nodup := h.imp fun hlt => ne_of_lt hlt
      have hbefore : i ∉ before := fun hmem =>
        (List.nodup_append.mp hnodup).2.2 i hmem i List.mem_cons_self rfl
      have hafter : i ∉ after :=
        (List.nodup_cons.mp (List.nodup_append.mp hnodup).2.1).1
      rw [above_toFinset h, List.drop_append, List.mem_append]
      have hfront : i ∉ before.drop ((before ++ i :: after).length - n) := fun hmem =>
        hbefore (List.mem_of_mem_drop hmem)
      simp only [List.length_append, List.length_cons] at hfront ⊢
      by_cases hlt : after.length < n
      · have hzero : before.length + (after.length + 1) - n - before.length = 0 := by omega
        simp [hlt, hzero]
      · obtain ⟨k, hk⟩ : ∃ k,
            before.length + (after.length + 1) - n - before.length = k + 1 :=
          ⟨after.length - n, by omega⟩
        rw [hk, List.drop_succ_cons]
        have hrest : i ∉ after.drop k := fun hmem => hafter (List.mem_of_mem_drop hmem)
        simp [hlt, hfront, hrest]
    constructor
    · intro hmem
      have hi := List.mem_of_mem_drop hmem
      exact ⟨hi, (hsplit hi).mp hmem⟩
    · exact fun ⟨hi, hlt⟩ => (hsplit hi).mpr hlt

/-- The newest are determined. -/
theorem Newest.unique {n : Nat} {U : Finset ι} {ids ids' : List ι} (h : Newest n U ids)
    (h' : Newest n U ids') : ids = ids' := by
  apply @List.Perm.eq_of_pairwise _ (· < ·)
  · exact fun a b _ _ hab hba => absurd hab (not_lt_of_gt hba)
  · exact h.ascending
  · exact h'.ascending
  · refine (List.perm_ext_iff_of_nodup ?_ ?_).mpr fun i => ?_
    · exact h.ascending.imp fun hlt => ne_of_lt hlt
    · exact h'.ascending.imp fun hlt => ne_of_lt hlt
    · rw [h.mem_iff, h'.mem_iff]

/-- With `n` ids of the whole above `i`, a part that has the newest has `n` above `i` as
well. -/
theorem le_above_of_newest {n : Nat} {U V : Finset ι} (hpart : ∀ j ∈ V, above V j < n → j ∈ U)
    {i : ι} (hmany : n ≤ above V i) : n ≤ above U i := by
  set higher := V.filter (i < ·) with hhigher
  set newest := higher.sort.drop (higher.sort.length - n) with hnewest
  have hsorted : higher.sort.Pairwise (· < ·) := higher.sortedLT_sort.pairwise
  have hmem (j : ι) : j ∈ newest ↔ j ∈ higher ∧ above higher j < n := by
    have h := (newest_drop hsorted n).mem_iff j
    rwa [Finset.sort_toFinset] at h
  have hlength : newest.length = n := by
    rw [hnewest, List.length_drop, Finset.length_sort]
    have hcard : n ≤ higher.card := hmany
    omega
  have hnodup : newest.Nodup :=
    (hsorted.imp fun hlt => ne_of_lt hlt).sublist (List.drop_sublist _ _)
  rw [← hlength, ← List.toFinset_card_of_nodup hnodup]
  apply Finset.card_le_card
  intro j hj
  obtain ⟨hj, hfew⟩ := (hmem j).mp (List.mem_toFinset.mp hj)
  obtain ⟨hV, hij⟩ := Finset.mem_filter.mp hj
  refine Finset.mem_filter.mpr ⟨hpart j hV (lt_of_le_of_lt ?_ hfew), hij⟩
  apply Finset.card_le_card
  intro k hk
  obtain ⟨hk, hjk⟩ := Finset.mem_filter.mp hk
  exact Finset.mem_filter.mpr ⟨Finset.mem_filter.mpr ⟨hk, lt_trans hij hjk⟩, hjk⟩

/-- The newest of a part are the newest of the whole exactly if the part has them. -/
theorem Newest.of_subset_iff {n : Nat} {U V : Finset ι} (hsub : U ⊆ V) {ids : List ι}
    (h : Newest n U ids) :
    Newest n V ids ↔ ∀ i ∈ V, above V i < n → i ∈ U := by
  constructor
  · intro hwhole i hi hlt
    exact ((h.mem_iff i).mp ((hwhole.mem_iff i).mpr ⟨hi, hlt⟩)).1
  · intro hpart
    refine ⟨h.ascending, fun i => ?_⟩
    rw [h.mem_iff]
    constructor
    · rintro ⟨hi, hlt⟩
      refine ⟨hsub hi, ?_⟩
      by_contra hmany
      exact not_lt_of_ge (le_above_of_newest hpart (not_lt.mp hmany)) hlt
    · rintro ⟨hi, hlt⟩
      exact ⟨hpart i hi hlt, lt_of_le_of_lt (above_le_of_subset hsub i) hlt⟩

end AgentGather.Library
