import Mathlib.Data.List.DropRight
import AgentGather.Library.Json
import AgentGather.Library.OrderedMap
import AgentGather.Storage.JoinedRooms

/-!
# Snapshot capabilities

The grants of one dashboard process: each names one room, lapses when it is not used, and is
evicted when too many were minted behind it.  What a call does to a grant is told by the
place of the grant, that is by the number of grants minted behind it.
-/

namespace AgentGather.Platform

open AgentGather.Library AgentGather.Storage

def snapshotCapabilityTtlMs : Nat := 6 * 60 * 60 * 1000

def snapshotCapabilityMax : Nat := 64

structure SnapshotGrant where
  target : JoinedRoomTarget
  expiresAt : Nat
deriving DecidableEq, Repr

/-- In the order they were minted. -/
abbrev SnapshotCapabilities := OrderedMap String SnapshotGrant

def pruneSnapshotCapabilities (now : Nat) (grants : SnapshotCapabilities) :
    SnapshotCapabilities where
  entries := grants.entries.filter fun e => now < e.2.expiresAt
  distinct := grants.distinct.sublist (List.filter_sublist.map Prod.fst)

/-- The loop that deletes the oldest until there is room for one more. -/
def evictOldestFrom : List (String × SnapshotGrant) → List (String × SnapshotGrant)
  | [] => []
  | oldest :: rest =>
      if snapshotCapabilityMax ≤ (oldest :: rest).length then evictOldestFrom rest
      else oldest :: rest

theorem evictOldestFrom_suffix (entries : List (String × SnapshotGrant)) :
    evictOldestFrom entries <:+ entries := by
  induction entries with
  | nil => exact List.suffix_rfl
  | cons oldest rest ih =>
      rw [evictOldestFrom]
      split
      · exact ih.trans (List.suffix_cons _ _)
      · exact List.suffix_rfl

def evictOldest (grants : SnapshotCapabilities) : SnapshotCapabilities where
  entries := evictOldestFrom grants.entries
  distinct := grants.distinct.sublist
    ((evictOldestFrom_suffix grants.entries).sublist.map Prod.fst)

/-- `capability` is what was drawn. -/
def mintSnapshotCapability (now : Nat) (capability : String) (target : JoinedRoomTarget)
    (grants : SnapshotCapabilities) : SnapshotCapabilities :=
  (evictOldest (pruneSnapshotCapabilities now grants)).set capability
    ⟨target, now + snapshotCapabilityTtlMs⟩

/-- The room that is granted; a grant that is used lasts on. -/
def resolveSnapshotCapability (now : Nat) (value : Json) (grants : SnapshotCapabilities) :
    Option JoinedRoomTarget × SnapshotCapabilities :=
  match value with
  | .str value =>
      if value = "" then (none, grants)
      else
        let live := pruneSnapshotCapabilities now grants
        match live.get? value with
        | none => (none, live)
        | some grant =>
            (some grant.target,
              live.set value { grant with expiresAt := now + snapshotCapabilityTtlMs })
  | _ => (none, grants)

/-! ## Pruning -/

section Grants

variable {now : Nat} {grants : SnapshotCapabilities} {c : String} {grant : SnapshotGrant}

theorem get?_prune : (pruneSnapshotCapabilities now grants).get? c = some grant ↔
    grants.get? c = some grant ∧ now < grant.expiresAt := by
  rw [OrderedMap.get?_eq_some_iff, OrderedMap.get?_eq_some_iff]
  simp [pruneSnapshotCapabilities]

theorem length_prune_le :
    (pruneSnapshotCapabilities now grants).entries.length ≤ grants.entries.length :=
  List.length_filter_le _ _

theorem mem_keys_prune (h : c ∈ (pruneSnapshotCapabilities now grants).keys) :
    c ∈ grants.keys :=
  (List.filter_sublist.map Prod.fst).subset h

/-! ## Evicting -/

/-- What is left are the newest, one less than there may be. -/
theorem evictOldestFrom_eq (entries : List (String × SnapshotGrant)) :
    evictOldestFrom entries = entries.rtake (snapshotCapabilityMax - 1) := by
  induction entries with
  | nil => rfl
  | cons oldest rest ih =>
      rw [evictOldestFrom, List.rtake_eq_reverse_take_reverse]
      by_cases hfull : snapshotCapabilityMax ≤ (oldest :: rest).length
      · have hlength : snapshotCapabilityMax - 1 ≤ rest.reverse.length := by
          rw [List.length_reverse]
          rw [List.length_cons] at hfull
          omega
        rw [if_pos hfull, ih, List.rtake_eq_reverse_take_reverse, List.reverse_cons,
          List.take_append_of_le_length hlength]
      · have hlength : (oldest :: rest).reverse.length ≤ snapshotCapabilityMax - 1 := by
          rw [List.length_reverse]
          omega
        rw [if_neg hfull, List.take_of_length_le hlength, List.reverse_reverse]

theorem length_evictOldest_lt : (evictOldest grants).entries.length < snapshotCapabilityMax := by
  change (evictOldestFrom grants.entries).length < _
  rw [evictOldestFrom_eq, List.rtake_eq_reverse_take_reverse, List.length_reverse,
    List.length_take]
  have hmax : 0 < snapshotCapabilityMax := by decide
  omega

theorem mem_keys_evictOldest (h : c ∈ (evictOldest grants).keys) : c ∈ grants.keys :=
  ((evictOldestFrom_suffix grants.entries).sublist.map Prod.fst).subset h

theorem get?_of_evictOldest (h : (evictOldest grants).get? c = some grant) :
    grants.get? c = some grant :=
  OrderedMap.get?_eq_some_iff.mpr
    ((evictOldestFrom_suffix grants.entries).subset (OrderedMap.get?_eq_some_iff.mp h))

/-! ## Places -/

/-- The grant is held, with at most `n` grants minted behind it. -/
def HeldWithin (n : Nat) (c : String) (grants : SnapshotCapabilities) : Prop :=
  ∃ older grant newer, grants.entries = older ++ (c, grant) :: newer ∧ newer.length ≤ n

variable {n : Nat}

theorem HeldWithin.mem_keys (h : HeldWithin n c grants) : c ∈ grants.keys := by
  obtain ⟨older, grant, newer, hentries, -⟩ := h
  rw [OrderedMap.keys, hentries]
  simp

theorem HeldWithin.mono {m : Nat} (h : HeldWithin n c grants) (hle : n ≤ m) :
    HeldWithin m c grants := by
  obtain ⟨older, grant, newer, hentries, hlength⟩ := h
  exact ⟨older, grant, newer, hentries, hlength.trans hle⟩

/-- A grant that lasts keeps its place. -/
theorem HeldWithin.prune (h : HeldWithin n c grants)
    (hlasts : ∀ grant, grants.get? c = some grant → now < grant.expiresAt) :
    HeldWithin n c (pruneSnapshotCapabilities now grants) := by
  obtain ⟨older, grant, newer, hentries, hlength⟩ := h
  have hmem : (c, grant) ∈ grants.entries := by
    rw [hentries]
    simp
  have hlives := hlasts grant (OrderedMap.get?_eq_some_iff.mpr hmem)
  refine ⟨older.filter fun e => now < e.2.expiresAt, grant,
    newer.filter fun e => now < e.2.expiresAt, ?_, (List.length_filter_le _ _).trans hlength⟩
  simp only [pruneSnapshotCapabilities, hentries, List.filter_append, List.filter_cons,
    decide_eq_true hlives, if_true]

/-- A grant with room behind it is not evicted. -/
theorem HeldWithin.evictOldest (h : HeldWithin n c grants)
    (hroom : n + 1 < snapshotCapabilityMax) :
    HeldWithin n c (evictOldest grants) := by
  obtain ⟨older, grant, newer, hentries, hlength⟩ := h
  have hsplit : ∀ older : List (String × SnapshotGrant), ∃ left, left <:+ older ∧
      evictOldestFrom (older ++ (c, grant) :: newer) = left ++ (c, grant) :: newer := by
    intro older
    induction older with
    | nil =>
        refine ⟨[], List.suffix_rfl, ?_⟩
        rw [List.nil_append, evictOldestFrom, if_neg]
        rw [List.length_cons]
        omega
    | cons oldest older ih =>
        rw [List.cons_append, evictOldestFrom]
        split
        · obtain ⟨left, hleft, heq⟩ := ih
          exact ⟨left, hleft.trans (List.suffix_cons _ _), heq⟩
        · exact ⟨oldest :: older, List.suffix_rfl, rfl⟩
  obtain ⟨left, -, heq⟩ := hsplit older
  refine ⟨left, grant, newer, ?_, hlength⟩
  rw [← heq, ← hentries]
  rfl

/-- A grant that is minted behind others. -/
theorem HeldWithin.set_new (h : HeldWithin n c grants) {other : String} (grant : SnapshotGrant)
    (hnew : other ∉ grants.keys) : HeldWithin (n + 1) c (grants.set other grant) := by
  obtain ⟨older, held, newer, hentries, hlength⟩ := h
  refine ⟨older, held, newer ++ [(other, grant)], ?_, by simpa using hlength⟩
  rw [OrderedMap.entries_set_of_not_mem hnew, hentries]
  simp

theorem heldWithin_set_self (grant : SnapshotGrant) (hnew : c ∉ grants.keys) :
    HeldWithin 0 c (grants.set c grant) :=
  ⟨grants.entries, grant, [], OrderedMap.entries_set_of_not_mem hnew grant, le_rfl⟩

/-- Replacing a grant keeps every place. -/
theorem HeldWithin.set_held (h : HeldWithin n c grants) {other : String} (grant : SnapshotGrant)
    (hheld : other ∈ grants.keys) : HeldWithin n c (grants.set other grant) := by
  obtain ⟨older, held, newer, hentries, hlength⟩ := h
  have hset := OrderedMap.entries_set_of_mem hheld grant
  rw [hentries, List.map_append, List.map_cons] at hset
  by_cases hc : c = other
  · subst hc
    rw [if_pos rfl] at hset
    exact ⟨_, grant, _, hset, by rw [List.length_map]; exact hlength⟩
  · rw [if_neg hc] at hset
    exact ⟨_, held, _, hset, by rw [List.length_map]; exact hlength⟩

end Grants

end AgentGather.Platform
