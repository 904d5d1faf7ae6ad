import AgentGather.Library.FixedWindow
import AgentGather.Library.OrderedMap
import AgentGather.Server.Memory

/-!
# The rate limiter

Every call drops the windows that are over, of all keys, and counts in the window of its
own.  For each key, the calls are told exactly what a limiter of its own would tell them.
-/

namespace AgentGather.Server

open AgentGather.Library AgentGather.Library.FixedWindow AgentGather.Protocol

/-! ## Buckets -/

/-- The bucket of `/messages`. -/
def messageBucketKey (roomId aliasName : String) : String := roomId ++ ":" ++ aliasName

/-- The bucket of another endpoint. -/
def writeBucketKey (roomId aliasName endpoint : String) : String :=
  roomId ++ ":" ++ aliasName ++ ":" ++ endpoint

theorem enforceWriteRateLimit_key (roomId aliasName endpoint : String) (now : Nat) :
    enforceWriteRateLimit roomId aliasName endpoint now =
      enforceRateLimit (writeBucketKey roomId aliasName endpoint)
        ((writeRateLimits.lookup endpoint).getD defaultWriteRateLimit) now := rfl

theorem colon_not_mem_of_isSafeSlug {slug : String} (h : isSafeSlug slug = true) :
    ':' ∉ slug.toList := by
  intro hmem
  have hslug := isSlugChar_of_isSafeSlug h ':' hmem
  cases hslug

theorem toList_messageBucketKey (roomId aliasName : String) :
    (messageBucketKey roomId aliasName).toList = roomId.toList ++ ':' :: aliasName.toList := by
  rw [messageBucketKey, String.toList_append, String.toList_append, List.append_assoc]
  rfl

theorem toList_writeBucketKey (roomId aliasName endpoint : String) :
    (writeBucketKey roomId aliasName endpoint).toList =
      roomId.toList ++ ':' :: (aliasName.toList ++ ':' :: endpoint.toList) := by
  simp only [writeBucketKey, String.toList_append, List.append_assoc]
  rfl

section Keys

variable {roomId roomId' aliasName aliasName' : String} (hroom : isSafeSlug roomId = true)
  (hroom' : isSafeSlug roomId' = true) (halias : isSafeSlug aliasName = true)
  (halias' : isSafeSlug aliasName' = true)

include hroom hroom' halias halias'

/-- A bucket tells the room, the alias and the endpoint. -/
theorem writeBucketKey_inj {endpoint endpoint' : String}
    (h : writeBucketKey roomId aliasName endpoint = writeBucketKey roomId' aliasName' endpoint') :
    roomId = roomId' ∧ aliasName = aliasName' ∧ endpoint = endpoint' := by
  have hlists := congrArg String.toList h
  rw [toList_writeBucketKey, toList_writeBucketKey] at hlists
  obtain ⟨hrooms, hrest⟩ := Text.append_separator_inj (colon_not_mem_of_isSafeSlug hroom)
    (colon_not_mem_of_isSafeSlug hroom') hlists
  obtain ⟨haliases, hendpoints⟩ := Text.append_separator_inj
    (colon_not_mem_of_isSafeSlug halias) (colon_not_mem_of_isSafeSlug halias') hrest
  exact ⟨String.toList_injective hrooms, String.toList_injective haliases,
    String.toList_injective hendpoints⟩

end Keys

/-- The bucket of `/messages` is no endpoint's. -/
theorem messageBucketKey_ne {roomId roomId' aliasName aliasName' : String}
    (hroom : isSafeSlug roomId = true) (hroom' : isSafeSlug roomId' = true)
    (halias : isSafeSlug aliasName = true) (endpoint : String) :
    messageBucketKey roomId aliasName ≠ writeBucketKey roomId' aliasName' endpoint := by
  intro h
  have hlists := congrArg String.toList h
  rw [toList_messageBucketKey, toList_writeBucketKey] at hlists
  obtain ⟨-, hrest⟩ := Text.append_separator_inj (colon_not_mem_of_isSafeSlug hroom)
    (colon_not_mem_of_isSafeSlug hroom') hlists
  have hcolon := colon_not_mem_of_isSafeSlug halias
  rw [hrest] at hcolon
  exact hcolon (List.mem_append_right _ List.mem_cons_self)

/-! ## One call -/

def rateWindowMs : Nat := 60000

/-- The window of a key. -/
def ServerMemory.rateWindow (m : ServerMemory) (key : String) : Option Window :=
  (m.rateBuckets.lookup key).map fun bucket => ⟨bucket.resetAt, bucket.count⟩

/-- No key has two buckets, and no bucket is empty. -/
structure ServerMemory.BucketsSound (m : ServerMemory) : Prop where
  distinct : (m.rateBuckets.map Prod.fst).Nodup
  counted : ∀ e ∈ m.rateBuckets, 0 < e.2.count

theorem lookup_filter {α : Type} {entries : List (String × α)}
    (h : (entries.map Prod.fst).Nodup) (p : α → Bool) (key : String) :
    (entries.filter fun e => p e.2).lookup key = (entries.lookup key).filter p := by
  have hfiltered : ((entries.filter fun e => p e.2).map Prod.fst).Nodup :=
    h.sublist (List.filter_sublist.map _)
  ext a
  rw [OrderedMap.lookup_eq_some_iff hfiltered, List.mem_filter, Option.filter_eq_some_iff,
    OrderedMap.lookup_eq_some_iff h]

theorem map_fst_setEntry {α : Type} (key : String) (value : α) (entries : List (String × α)) :
    (setEntry key value entries).map Prod.fst =
      if (entries.lookup key).isSome then entries.map Prod.fst
      else entries.map Prod.fst ++ [key] := by
  unfold setEntry
  split
  · rw [List.map_map]
    apply List.map_congr_left
    intro e _
    by_cases hkey : e.1 = key <;> simp [hkey]
  · rw [List.map_append]
    rfl

theorem nodup_setEntry {α : Type} {key : String} {value : α} {entries : List (String × α)}
    (h : (entries.map Prod.fst).Nodup) : ((setEntry key value entries).map Prod.fst).Nodup := by
  rw [map_fst_setEntry]
  split
  · exact h
  · rename_i hnone
    rw [Option.not_isSome_iff_eq_none, List.lookup_eq_none_iff] at hnone
    refine List.nodup_append.mpr ⟨h, List.pairwise_singleton _ _, fun k hk k' hk' => ?_⟩
    obtain ⟨e, he, rfl⟩ := List.mem_map.mp hk
    obtain rfl := List.mem_singleton.mp hk'
    exact Ne.symm (by simpa using hnone e he)

theorem mem_setEntry {α : Type} {key : String} {value : α} {entries : List (String × α)}
    {e : String × α} (h : e ∈ setEntry key value entries) : e ∈ entries ∨ e = (key, value) := by
  unfold setEntry at h
  split at h
  · obtain ⟨e', he', rfl⟩ := List.mem_map.mp h
    split
    · exact .inr rfl
    · exact .inl he'
  · simpa using h

/-- What a call does: to the window of its key, as a limiter of that key, and to no other
window that is not over. -/
theorem enforceRateLimit_spec {m : ServerMemory} (h : m.BucketsSound) (key : String)
    (limit now : Nat) :
    ((enforceRateLimit key limit now).run.run m).1.isOk =
        admits limit (call rateWindowMs now (m.rateWindow key)) ∧
      ((enforceRateLimit key limit now).run.run m).2.BucketsSound ∧
      ∀ k t, now ≤ t → live t (((enforceRateLimit key limit now).run.run m).2.rateWindow k) =
        live t (if k = key then some (call rateWindowMs now (m.rateWindow key))
          else m.rateWindow k) := by
  have hpruned (k : String) :
      (m.rateBuckets.filter fun e => !decide (e.2.resetAt ≤ now)).lookup k =
        (m.rateBuckets.lookup k).filter fun bucket => !decide (bucket.resetAt ≤ now) :=
    lookup_filter h.distinct (fun bucket => !decide (bucket.resetAt ≤ now)) k
  have hdistinct : ((m.rateBuckets.filter fun e => !decide (e.2.resetAt ≤ now)).map
      Prod.fst).Nodup := h.distinct.sublist (List.filter_sublist.map _)
  -- What is dropped was over, and is over at any later time.
  have hlive (k : String) (t : Nat) (ht : now ≤ t) :
      live t (((m.rateBuckets.lookup k).filter fun bucket =>
        !decide (bucket.resetAt ≤ now)).map fun bucket => ⟨bucket.resetAt, bucket.count⟩) =
      live t (m.rateWindow k) := by
    rw [ServerMemory.rateWindow]
    cases m.rateBuckets.lookup k with
    | none => rfl
    | some bucket =>
        by_cases hover : bucket.resetAt ≤ now
        · rw [Option.filter_some_neg (by simpa using hover), Option.map_some,
            live_some_of_le (hover.trans ht)]
          rfl
        · rw [Option.filter_some_pos (by simpa using hover)]
  have hset (k : String) (t : Nat) (ht : now ≤ t) (w : RateBucket) :
      live t (((setEntry key w (m.rateBuckets.filter fun e =>
        !decide (e.2.resetAt ≤ now))).lookup k).map fun bucket =>
          ⟨bucket.resetAt, bucket.count⟩) =
      live t (if k = key then some ⟨w.resetAt, w.count⟩ else m.rateWindow k) := by
    rw [lookup_setEntry]
    by_cases hk : k = key
    · rw [if_pos hk, if_pos hk]
      rfl
    · rw [if_neg hk, if_neg hk, hpruned, hlive k t ht]
  have hnow := hlive key now (le_refl now)
  have hsound (w : RateBucket) (hw : 0 < w.count) (m' : ServerMemory)
      (hm' : m'.rateBuckets = setEntry key w (m.rateBuckets.filter fun e =>
        !decide (e.2.resetAt ≤ now))) : m'.BucketsSound := by
    refine ⟨hm' ▸ nodup_setEntry hdistinct, fun e he => ?_⟩
    rw [hm'] at he
    rcases mem_setEntry he with he | rfl
    · exact h.counted e (List.mem_filter.mp he).1
    · exact hw
  simp only [enforceRateLimit, run_bind, run_modify, run_get]
  cases hfound : (m.rateBuckets.filter fun e => !decide (e.2.resetAt ≤ now)).lookup key with
  | none =>
      rw [hpruned] at hfound
      rw [hfound] at hnow
      have hcall : call rateWindowMs now (m.rateWindow key) = ⟨now + 60000, 1⟩ := by
        rw [call, ← hnow]
        rfl
      rw [hcall]
      exact ⟨(decide_eq_true (le_max_right _ _)).symm, hsound _ Nat.one_pos _ rfl,
        fun k t ht => hset k t ht ⟨now + 60000, 1⟩⟩
  | some bucket =>
      rw [hpruned] at hfound
      obtain ⟨hbucket, hopen⟩ := Option.filter_eq_some_iff.mp hfound
      have hopen' : now < bucket.resetAt := by simpa using hopen
      rw [hfound, Option.map_some, live_some_of_lt hopen'] at hnow
      have hcall : call rateWindowMs now (m.rateWindow key) =
          ⟨bucket.resetAt, bucket.count + 1⟩ := by
        rw [call, ← hnow]
      have hcounted : 0 < bucket.count :=
        h.counted _ ((OrderedMap.lookup_eq_some_iff h.distinct).mp hbucket)
      rw [hcall]
      have hadmits : admits limit ⟨bucket.resetAt, bucket.count + 1⟩ =
          !decide (limit < bucket.count + 1) := by
        rw [admits, Bool.eq_iff_iff, decide_eq_true_iff, Bool.not_eq_true', decide_eq_false_iff_not]
        dsimp only
        omega
      rw [hadmits]
      simp only [run_bind, run_set]
      by_cases hlimit : limit < bucket.count + 1
      · rw [if_pos hlimit, decide_eq_true hlimit]
        exact ⟨rfl, hsound _ (Nat.succ_pos _) _ rfl, fun k t ht => hset k t ht _⟩
      · rw [if_neg hlimit, decide_eq_false hlimit]
        exact ⟨rfl, hsound _ (Nat.succ_pos _) _ rfl, fun k t ht => hset k t ht _⟩

/-! ## Any calls -/

/-- Whether each of the calls returns. -/
def rateOutcomes (limits : String → Nat) (m : ServerMemory) : List (String × Nat) → List Bool
  | [] => []
  | (key, now) :: calls =>
      let answered := (enforceRateLimit key (limits key) now).run.run m
      answered.1.isOk :: rateOutcomes limits answered.2 calls

/-- Whether each call of the key returns. -/
def outcomesOf (key : String) (limits : String → Nat) (m : ServerMemory)
    (calls : List (String × Nat)) : List Bool :=
  ((calls.zip (rateOutcomes limits m calls)).filter fun e => e.1.1 == key).map (·.2)

/-- When the key is called. -/
def timesOf (key : String) (calls : List (String × Nat)) : List Nat :=
  (calls.filter fun call => call.1 == key).map (·.2)

theorem outcomesOf_cons (key k : String) (now : Nat) (limits : String → Nat)
    (m : ServerMemory) (calls : List (String × Nat)) :
    outcomesOf key limits m ((k, now) :: calls) =
      (if k = key then [((enforceRateLimit k (limits k) now).run.run m).1.isOk] else []) ++
        outcomesOf key limits ((enforceRateLimit k (limits k) now).run.run m).2 calls := by
  simp only [outcomesOf, rateOutcomes, List.zip_cons_cons]
  by_cases hk : k = key
  · rw [List.filter_cons_of_pos (by simpa using hk), if_pos hk]
    rfl
  · rw [List.filter_cons_of_neg (by simpa using hk), if_neg hk]
    rfl

theorem timesOf_cons (key k : String) (now : Nat) (calls : List (String × Nat)) :
    timesOf key ((k, now) :: calls) = (if k = key then [now] else []) ++ timesOf key calls := by
  simp only [timesOf]
  by_cases hk : k = key
  · rw [List.filter_cons_of_pos (by simpa using hk), if_pos hk]
    rfl
  · rw [List.filter_cons_of_neg (by simpa using hk), if_neg hk]
    rfl

/-- The calls of a key are told what a limiter of that key tells them: what the windows
differ in is over by the next call. -/
theorem outcomesOf_eq_run (limits : String → Nat) {m : ServerMemory} (h : m.BucketsSound)
    (key : String) (window : Option Window) (calls : List (String × Nat))
    (hmono : (calls.map Prod.snd).Pairwise (· ≤ ·))
    (hwindow : ∀ call ∈ calls.head?, ∀ t, call.2 ≤ t →
      live t (m.rateWindow key) = live t window) :
    outcomesOf key limits m calls =
      run rateWindowMs (limits key) window (timesOf key calls) := by
  induction calls generalizing m window with
  | nil => rfl
  | cons c calls ih =>
      obtain ⟨k, now⟩ := c
      obtain ⟨hfirst, hrest⟩ := List.pairwise_cons.mp hmono
      obtain ⟨houtcome, hsound, hlive⟩ := enforceRateLimit_spec h k (limits k) now
      have hlater : ∀ call ∈ calls.head?, now ≤ call.2 := fun call hcall =>
        hfirst call.2 (List.mem_map_of_mem (List.mem_of_mem_head? hcall))
      rw [outcomesOf_cons, timesOf_cons]
      by_cases hk : k = key
      · subst hk
        have hcall : FixedWindow.call rateWindowMs now (m.rateWindow k) =
            FixedWindow.call rateWindowMs now window := by
          simp only [FixedWindow.call, hwindow (k, now) rfl now (le_refl now)]
        rw [if_pos rfl, if_pos rfl, houtcome, hcall, List.singleton_append,
          List.singleton_append, run]
        congr 1
        refine ih hsound _ hrest fun call hc t ht => ?_
        rw [hlive k t ((hlater call hc).trans ht), if_pos rfl, hcall]
      · rw [if_neg hk, if_neg hk, List.nil_append, List.nil_append]
        refine ih hsound _ hrest fun call hc t ht => ?_
        have ht' := (hlater call hc).trans ht
        rw [hlive key t ht', if_neg (Ne.symm hk)]
        exact hwindow (k, now) rfl t ht'

/-- No two rooms, aliases and endpoints share a bucket. -/
def BucketsApart : Prop :=
  ∀ roomId roomId' aliasName aliasName' endpoint endpoint' : String,
    isSafeSlug roomId = true → isSafeSlug roomId' = true → isSafeSlug aliasName = true →
    isSafeSlug aliasName' = true →
      (writeBucketKey roomId aliasName endpoint = writeBucketKey roomId' aliasName' endpoint' →
        roomId = roomId' ∧ aliasName = aliasName' ∧ endpoint = endpoint') ∧
      messageBucketKey roomId aliasName ≠ writeBucketKey roomId' aliasName' endpoint

/-- Of the calls of a key, in every window of a minute the first ones up to its limit
return, one at least, and no others; the windows are told by the times of these calls
alone, whatever is called for other keys. -/
theorem enforceRateLimit_windows (limits : String → Nat) (calls : List (String × Nat))
    (hmono : (calls.map Prod.snd).Pairwise (· ≤ ·)) :
    (∀ key, outcomesOf key limits .initial calls =
      (windows rateWindowMs id (timesOf key calls)).flatMap fun window =>
        decisions (limits key) window.length) ∧ BucketsApart := by
  refine ⟨fun key => ?_, ?_⟩
  · have hsound : ServerMemory.initial.BucketsSound := ⟨List.nodup_nil, fun e he => nomatch he⟩
    rw [outcomesOf_eq_run limits hsound key none calls hmono fun _ _ _ _ => rfl,
      ← run_windows, List.map_id]
  · intro roomId roomId' aliasName aliasName' endpoint endpoint' hroom hroom' halias halias'
    exact ⟨writeBucketKey_inj hroom hroom' halias halias',
      messageBucketKey_ne hroom hroom' halias endpoint⟩

/-- Three calls of one key among those of another, the last behind the window's end. -/
theorem enforceRateLimit_windows_mixed :
    outcomesOf "r:a" (fun _ => 1) .initial
        [("r:a", 0), ("r:b", 10), ("r:a", 20), ("r:b", 59999), ("r:a", 60000)] =
      [true, false, true] ∧
    outcomesOf "r:a" (fun _ => 1) .initial
        [("r:a", 0), ("r:b", 10), ("r:a", 20), ("r:b", 59999), ("r:a", 60000)] =
      (windows rateWindowMs id [0, 20, 60000]).flatMap fun window => decisions 1 window.length :=
  ⟨by decide, (enforceRateLimit_windows (fun _ => 1) [("r:a", 0), ("r:b", 10), ("r:a", 20),
    ("r:b", 59999), ("r:a", 60000)] (by decide)).1 "r:a"⟩

end AgentGather.Server
