import AgentGather.Library.Newest
import AgentGather.Storage.JoinedHistory

/-!
# The receiver of joined history

What the dashboard makes of a posted batch before it is recorded.  The store drops the
oldest first, the receiver takes the first of each list; so what is stored is the newest
exactly where the receiver leaves nothing new behind.
-/

namespace AgentGather.Platform

open AgentGather.Library AgentGather.Storage

/-! ## The page -/

def snapshotBridgeMaxBytes : Nat := 150000

/-- The body the page posts; its room is named by a capability, or by itself. -/
def bridgeBody (capability baseUrl roomId : Json) (batch : List Json) : Json :=
  .obj [("capability", capability), ("baseUrl", baseUrl), ("roomId", roomId),
    ("messages", .arr batch)]

/-- What the page posts of the messages a poll delivered. -/
def bridgedBatch (capability baseUrl roomId : Json) (batch : List Json) : List Json :=
  dropAllButOne (fun batch => snapshotBridgeMaxBytes <
    Text.utf16Length (bridgeBody capability baseUrl roomId batch).print) batch

/-- The page drops the oldest. -/
theorem bridgedBatch_suffix (capability baseUrl roomId : Json) (batch : List Json) :
    bridgedBatch capability baseUrl roomId batch <:+ batch := dropAllButOne_suffix _ _

/-! ## Reading the batch -/

/-- A string, trimmed and cut; none if that leaves nothing. -/
def shortString : Option Json → Option String
  | some (.str value) =>
      match Text.trim value.toList with
      | [] => none
      | c :: cs => some (.ofList (Text.sliceTo 200 (c :: cs)))
  | _ => none

def redactedField (value : Option Json) (fallback : String) : String :=
  match shortString value with
  | none => fallback
  | some trimmed => redactText trimmed

/-- The items of an array; anything else has none. -/
def itemsOf : Option Json → List Json
  | some (.arr items) => items
  | _ => []

/-- The id of a message; a message without one is skipped. -/
def messageId? (entry : Json) : Option Int :=
  match entry.field? "id" with
  | some (.num id) => some id
  | _ => none

def snapshotMessageFrom (entry : Json) : Option SnapshotMessage :=
  (messageId? entry).map fun id =>
    { id := id
      sender := redactedField (entry.field? "from") ""
      ts := redactedField (entry.field? "ts") ""
      type := redactedField (entry.field? "type") "chat"
      text := redactSnapshotText (entry.field? "text") }

def snapshotMessagesFrom (value : Option Json) : List SnapshotMessage :=
  ((itemsOf value).take snapshotMaxMessages).filterMap snapshotMessageFrom

def snapshotCommentFrom (entry : Json) : SnapshotForumComment where
  id := redactedField (entry.field? "id") ""
  author := redactedField (entry.field? "author") ""
  ts := redactedField (entry.field? "ts") ""
  body := redactSnapshotText (entry.field? "body")

/-- A post without an id is skipped. -/
def isThread (entry : Json) : Bool := (shortString (entry.field? "id")).isSome

def snapshotForumPostFrom (entry : Json) : SnapshotForumPost where
  id := redactedField (entry.field? "id") ""
  channel := redactedField (entry.field? "channel") ""
  title := redactSnapshotText (entry.field? "title")
  author := redactedField (entry.field? "author") ""
  ts := redactedField (entry.field? "ts") ""
  status := redactedField (entry.field? "status") ""
  body := redactSnapshotText (entry.field? "body")
  comments :=
    ((itemsOf (entry.field? "comments")).take snapshotMaxCommentsPerPost).map snapshotCommentFrom

def snapshotForumPostsFrom (value : Option Json) : List SnapshotForumPost :=
  (((itemsOf value).take snapshotMaxForumPosts).filter isThread).map snapshotForumPostFrom

/-- A posted batch: two members of the body. -/
structure PostedHistory where
  messages : Option Json
  forumPosts : Option Json

/-- What is recorded of the batch. -/
def receivedEntry (target : JoinedRoomTarget) (body : PostedHistory) (now : String) :
    HistoryEntry where
  roomId := target.roomId
  baseUrl := target.baseUrl
  messages := snapshotMessagesFrom body.messages
  forumPosts := snapshotForumPostsFrom body.forumPosts
  savedAt := now

/-! ## Ids -/

/-- The ids of posted messages. -/
def postedIds (items : List Json) : List Int := items.filterMap messageId?

/-- The id a posted thread is stored under. -/
def threadId (entry : Json) : String := redactText (redactedField (entry.field? "id") "")

/-- The threads among posted items. -/
def threadsOf (items : List Json) : List Json := items.filter isThread

def commentItems (entry : Json) : List Json := itemsOf (entry.field? "comments")

/-- The ids the comments of a posted thread are stored under. -/
def commentIds (entry : Json) : List String :=
  (commentItems entry).map fun comment => redactText (redactedField (comment.field? "id") "")

/-- Threads and the comments of a thread have ids of their own, also as they are stored. -/
structure ValidIds (body : PostedHistory) : Prop where
  threads : ((threadsOf (itemsOf body.forumPosts)).map threadId).Nodup
  comments : ∀ entry ∈ threadsOf (itemsOf body.forumPosts), (commentIds entry).Nodup

/-! ## What is to be stored -/

section Spec

variable (current : JoinedHistorySnapshot) (body : PostedHistory)

/-- The ids of the stored and of the posted messages. -/
def unionIds : Finset Int :=
  (current.messages.map (·.id)).toFinset ∪ (postedIds (itemsOf body.messages)).toFinset

/-- The threads that are stored, in their order. -/
def storedThreadIds : List String := (postsById current.forumPosts).keys

/-- The stored threads, and behind them those that are new. -/
def unionThreads : List String :=
  storedThreadIds current ++
    ((threadsOf (itemsOf body.forumPosts)).map threadId).filter
      fun id => id ∉ storedThreadIds current

/-- The snapshot before the byte cap, and the one that is stored, hold the newest. -/
structure NewestKept (counted stored : JoinedHistorySnapshot) : Prop where
  messages : Newest snapshotMaxMessages (unionIds current body) (counted.messages.map (·.id))
  threads : counted.forumPosts.map (·.id) =
    newestOf snapshotMaxForumPosts (unionThreads current body)
  /-- Of a thread that was posted with its comments, the newest comments are stored. -/
  comments : ∀ entry ∈ threadsOf (itemsOf body.forumPosts), commentItems entry ≠ [] →
    ∀ post ∈ counted.forumPosts, post.id = threadId entry →
      post.comments.map (·.id) = newestOf snapshotMaxCommentsPerPost (commentIds entry)
  /-- The byte cap drops the oldest. -/
  capped : stored.messages <:+ counted.messages ∧ stored.forumPosts <:+ counted.forumPosts

/-- The receiver leaves nothing behind that is to be stored. -/
structure NothingLeftBehind : Prop where
  messages : ∀ id ∈ unionIds current body,
    above (unionIds current body) id < snapshotMaxMessages →
      id ∈ current.messages.map (·.id) ∨
        id ∈ postedIds ((itemsOf body.messages).take snapshotMaxMessages)
  threads : ∀ entry ∈ threadsOf ((itemsOf body.forumPosts).drop snapshotMaxForumPosts),
    threadId entry ∈ storedThreadIds current
  comments : ∀ entry ∈ threadsOf ((itemsOf body.forumPosts).take snapshotMaxForumPosts),
    threadId entry ∈ newestOf snapshotMaxForumPosts (unionThreads current body) →
      (commentItems entry).length ≤ snapshotMaxCommentsPerPost
  /-- A thread that is left behind is stored with these comments already. -/
  lateComments : ∀ entry ∈ threadsOf ((itemsOf body.forumPosts).drop snapshotMaxForumPosts),
    threadId entry ∈ newestOf snapshotMaxForumPosts (unionThreads current body) →
      commentItems entry ≠ [] → ∀ post,
        (postsById current.forumPosts).get? (threadId entry) = some post →
        post.comments.map (·.id) = newestOf snapshotMaxCommentsPerPost (commentIds entry)

end Spec

/-! ## Messages -/

theorem map_id_snapshotMessagesFrom (value : Option Json) :
    (snapshotMessagesFrom value).map (·.id) =
      postedIds ((itemsOf value).take snapshotMaxMessages) := by
  rw [snapshotMessagesFrom, postedIds, List.map_filterMap]
  apply List.filterMap_congr
  intro entry _
  rw [snapshotMessageFrom, Option.map_map]
  exact congrFun Option.map_id _

/-- The count cap keeps the newest of what was stored and of what was received. -/
theorem newest_counted (current : JoinedHistorySnapshot) (entry : HistoryEntry) :
    Newest snapshotMaxMessages
      ((current.messages.map (·.id)).toFinset ∪ (entry.messages.map (·.id)).toFinset)
      ((boundCounts (mergeSnapshot current entry)).messages.map (·.id)) := by
  have h := newest_drop (mergeMessages_ascending current.messages entry.messages)
    snapshotMaxMessages
  have hset : ((mergeMessages current.messages entry.messages).map (·.id)).toFinset =
      (current.messages.map (·.id)).toFinset ∪ (entry.messages.map (·.id)).toFinset := by
    ext id
    rw [List.mem_toFinset, mem_mergeMessages, Finset.mem_union, List.mem_toFinset,
      List.mem_toFinset]
  rw [boundCounts_messages, mergeSnapshot_messages, newestOf, List.map_drop, ← hset, ← List.length_map (f := (·.id))]
  exact h

theorem messages_newest_iff (current : JoinedHistorySnapshot) (target : JoinedRoomTarget)
    (body : PostedHistory) (now : String) :
    Newest snapshotMaxMessages (unionIds current body)
        ((boundCounts (mergeSnapshot current (receivedEntry target body now))).messages.map
          (·.id)) ↔
      ∀ id ∈ unionIds current body,
        above (unionIds current body) id < snapshotMaxMessages →
          id ∈ current.messages.map (·.id) ∨
            id ∈ postedIds ((itemsOf body.messages).take snapshotMaxMessages) := by
  have hcounted := newest_counted current (receivedEntry target body now)
  have hreceived : (receivedEntry target body now).messages.map (·.id) =
      postedIds ((itemsOf body.messages).take snapshotMaxMessages) :=
    map_id_snapshotMessagesFrom body.messages
  rw [hreceived] at hcounted
  have hsub : (current.messages.map (·.id)).toFinset ∪
      (postedIds ((itemsOf body.messages).take snapshotMaxMessages)).toFinset ⊆
        unionIds current body := by
    apply Finset.union_subset_union_right
    intro id hid
    rw [List.mem_toFinset] at hid ⊢
    exact ((List.take_sublist _ _).filterMap messageId?).subset hid
  rw [hcounted.of_subset_iff hsub]
  simp only [Finset.mem_union, List.mem_toFinset]

/-! ## The newest of a list -/

section Lists

variable {α : Type} {n : Nat} {l : List α}

/-- What comes behind is missed if it is left out. -/
theorem newestOf_append_iff (hn : 0 < n) {late : List α} (h : ∀ a ∈ late, a ∉ l) :
    newestOf n l = newestOf n (l ++ late) ↔ late = [] := by
  constructor
  · intro heq
    rcases List.eq_nil_or_concat late with hnil | ⟨before, a, rfl⟩
    · exact hnil
    · have hmem : a ∈ newestOf n (l ++ (before ++ [a])) := by
        rw [newestOf, ← List.append_assoc, List.drop_append]
        refine List.mem_append_right _ ?_
        simp only [List.length_append, List.length_singleton]
        have hzero : l.length + before.length + 1 - n - (l.length + before.length) = 0 := by
          omega
        rw [hzero]
        exact List.mem_cons_self
      rw [← List.concat_eq_append, ← heq] at hmem
      exact absurd (List.mem_of_mem_drop hmem) (h a (by simp))
  · rintro rfl
    rw [List.append_nil]

/-- The first are the last only where there are no more. -/
theorem take_eq_newestOf_iff (hn : 0 < n) (h : l.Nodup) :
    l.take n = newestOf n l ↔ l.length ≤ n := by
  constructor
  · intro heq
    by_contra hlong
    cases l with
    | nil => exact hlong (Nat.zero_le _)
    | cons a l =>
        have hfirst : a ∈ (a :: l).take n := by
          obtain ⟨k, rfl⟩ : ∃ k, n = k + 1 := ⟨n - 1, by omega⟩
          exact List.mem_cons_self
        obtain ⟨k, hk⟩ : ∃ k, (a :: l).length - n = k + 1 :=
          ⟨(a :: l).length - n - 1, by omega⟩
        rw [heq, newestOf, hk, List.drop_succ_cons] at hfirst
        exact (List.nodup_cons.mp h).1 (List.mem_of_mem_drop hfirst)
  · intro hshort
    rw [newestOf, List.take_of_length_le hshort, Nat.sub_eq_zero_of_le hshort, List.drop_zero]

theorem newestOf_take : newestOf n (l.take n) = l.take n := by
  have hzero : (l.take n).length - n = 0 := by
    rw [List.length_take]
    omega
  rw [newestOf, hzero, List.drop_zero]

theorem newestOf_map {β : Type} (f : α → β) : newestOf n (l.map f) = (newestOf n l).map f := by
  rw [newestOf, newestOf, List.length_map, List.map_drop]

/-- The newest values stand under the newest keys. -/
theorem mem_newestOf_values_iff {κ : Type} [DecidableEq κ] {m : OrderedMap κ α} {a : α} :
    a ∈ newestOf n m.values ↔ ∃ k ∈ newestOf n m.keys, m.get? k = some a := by
  rw [OrderedMap.values, OrderedMap.keys, newestOf_map, newestOf_map]
  constructor
  · intro h
    obtain ⟨e, he, rfl⟩ := List.mem_map.mp h
    exact ⟨e.1, List.mem_map_of_mem he,
      OrderedMap.get?_eq_some_iff.mpr (List.mem_of_mem_drop he)⟩
  · rintro ⟨k, hk, hget⟩
    obtain ⟨e, he, rfl⟩ := List.mem_map.mp hk
    have hsame := OrderedMap.get?_eq_some_iff.mpr (List.mem_of_mem_drop he)
    rw [hget] at hsame
    rw [Option.some.inj hsame]
    exact List.mem_map_of_mem he

end Lists

/-! ## Threads -/

section Threads

variable {current : JoinedHistorySnapshot} {body : PostedHistory}

theorem threadsOf_split (items : List Json) (n : Nat) :
    threadsOf items = threadsOf (items.take n) ++ threadsOf (items.drop n) := by
  rw [threadsOf, threadsOf, threadsOf, ← List.filter_append, List.take_append_drop]

@[simp] theorem snapshotForumPostFrom_id (entry : Json) :
    redactText (snapshotForumPostFrom entry).id = threadId entry := by
  rw [snapshotForumPostFrom, threadId]

theorem map_id_snapshotForumPostsFrom (value : Option Json) :
    (snapshotForumPostsFrom value).map (fun post => redactText post.id) =
      (threadsOf ((itemsOf value).take snapshotMaxForumPosts)).map threadId := by
  rw [snapshotForumPostsFrom, List.map_map, threadsOf]
  apply List.map_congr_left
  intro entry _
  exact snapshotForumPostFrom_id entry

/-- The posts by id once the batch is merged. -/
def receivedPosts (current : JoinedHistorySnapshot) (body : PostedHistory) :
    OrderedMap String SnapshotForumPost :=
  mergedPosts current.forumPosts (snapshotForumPostsFrom body.forumPosts)

theorem receivedPosts_names (current : JoinedHistorySnapshot) (body : PostedHistory) :
    OrderedMap.Names SnapshotForumPost.id (receivedPosts current body) :=
  mergedPosts_names _ _

theorem map_id_snapshotCommentFrom (comments : List Json) :
    ((comments.map snapshotCommentFrom).map SnapshotForumComment.redacted).map (·.id) =
      comments.map fun comment => redactText (redactedField (comment.field? "id") "") := by
  rw [List.map_map, List.map_map]
  apply List.map_congr_left
  intro comment _
  simp only [Function.comp_apply, SnapshotForumComment.redacted, snapshotCommentFrom]

theorem early_nodup (h : ValidIds body) :
    ((threadsOf ((itemsOf body.forumPosts).take snapshotMaxForumPosts)).map threadId).Nodup := by
  have hthreads := h.threads
  rw [threadsOf_split _ snapshotMaxForumPosts, List.map_append] at hthreads
  exact (List.nodup_append.mp hthreads).1

theorem keys_receivedPosts (h : ValidIds body) :
    (receivedPosts current body).keys = storedThreadIds current ++
      ((threadsOf ((itemsOf body.forumPosts).take snapshotMaxForumPosts)).map threadId).filter
        fun id => id ∉ storedThreadIds current := by
  have hnodup := early_nodup h
  rw [← map_id_snapshotForumPostsFrom] at hnodup ⊢
  rw [receivedPosts, mergedPosts, OrderedMap.keys_setAll hnodup]
  rfl

theorem unionThreads_eq (h : ValidIds body) :
    unionThreads current body = (receivedPosts current body).keys ++
      ((threadsOf ((itemsOf body.forumPosts).drop snapshotMaxForumPosts)).map threadId).filter
        fun id => id ∉ storedThreadIds current := by
  rw [keys_receivedPosts h, unionThreads, threadsOf_split _ snapshotMaxForumPosts,
    List.map_append, List.filter_append, List.append_assoc]

/-- The newest threads are stored exactly if every thread that is left behind is stored
already. -/
theorem threads_newest_iff (h : ValidIds body) :
    newestOf snapshotMaxForumPosts (receivedPosts current body).keys =
        newestOf snapshotMaxForumPosts (unionThreads current body) ↔
      ∀ entry ∈ threadsOf ((itemsOf body.forumPosts).drop snapshotMaxForumPosts),
        threadId entry ∈ storedThreadIds current := by
  have hthreads := h.threads
  rw [threadsOf_split _ snapshotMaxForumPosts, List.map_append] at hthreads
  obtain ⟨-, -, hcross⟩ := List.nodup_append.mp hthreads
  rw [unionThreads_eq h, newestOf_append_iff (by decide), List.filter_eq_nil_iff]
  · simp
  · intro id hid hmem
    obtain ⟨hlate, hnew⟩ := List.mem_filter.mp hid
    rw [keys_receivedPosts h, List.mem_append] at hmem
    rcases hmem with hstored | hearly
    · simp [hstored] at hnew
    · exact hcross id (List.mem_filter.mp hearly).1 id hlate rfl

theorem threadId_not_mem_early (h : ValidIds body) {entry : Json}
    (hentry : entry ∈ threadsOf ((itemsOf body.forumPosts).drop snapshotMaxForumPosts)) :
    threadId entry ∉
      (threadsOf ((itemsOf body.forumPosts).take snapshotMaxForumPosts)).map threadId := by
  have hthreads := h.threads
  rw [threadsOf_split _ snapshotMaxForumPosts, List.map_append] at hthreads
  intro hearly
  exact (List.nodup_append.mp hthreads).2.2 _ hearly _ (List.mem_map_of_mem hentry) rfl

/-- A thread that is left behind stays as it is stored. -/
theorem get?_late (h : ValidIds body) {entry : Json}
    (hentry : entry ∈ threadsOf ((itemsOf body.forumPosts).drop snapshotMaxForumPosts)) :
    (receivedPosts current body).get? (threadId entry) =
      (postsById current.forumPosts).get? (threadId entry) := by
  apply OrderedMap.get?_setAll_of_not_mem
  rw [map_id_snapshotForumPostsFrom]
  exact threadId_not_mem_early h hentry

/-- A thread that is received with comments is stored with the first of them. -/
theorem get?_early (h : ValidIds body) {entry : Json}
    (hentry : entry ∈ threadsOf ((itemsOf body.forumPosts).take snapshotMaxForumPosts)) :
    ∃ post, (receivedPosts current body).get? (threadId entry) = some post ∧
      (commentItems entry ≠ [] →
        post.comments.map (·.id) = (commentIds entry).take snapshotMaxCommentsPerPost) := by
  have hnodup := early_nodup h
  rw [← map_id_snapshotForumPostsFrom] at hnodup
  have hmem : snapshotForumPostFrom entry ∈ snapshotForumPostsFrom body.forumPosts :=
    List.mem_map_of_mem hentry
  obtain ⟨byId, -, hget⟩ := @OrderedMap.exists_get?_setAll _ _ _ _ _
    (fun byId post => storedPost (byId.get? (redactText post.id)) post)
    (postsById current.forumPosts) _ hnodup _ hmem
  rw [snapshotForumPostFrom_id] at hget
  refine ⟨_, hget, fun hne => ?_⟩
  have hcomments : (snapshotForumPostFrom entry).comments =
      ((commentItems entry).take snapshotMaxCommentsPerPost).map snapshotCommentFrom := by
    rw [snapshotForumPostFrom, commentItems]
  have hsome : (snapshotForumPostFrom entry).comments ≠ [] := by
    rw [hcomments]
    intro hnil
    rcases List.take_eq_nil_iff.mp (List.map_eq_nil_iff.mp hnil) with hzero | hnone
    · cases hzero
    · exact hne hnone
  rw [storedPost_comments _ hsome, hcomments, newestOf_map, newestOf_take,
    map_id_snapshotCommentFrom, commentIds, List.map_take]

end Threads

/-! ## The byte cap -/

/-- The byte cap drops from the oldest end only. -/
theorem bound_suffix (snapshot : JoinedHistorySnapshot) :
    (bound snapshot).messages <:+ (boundCounts snapshot).messages ∧
      (bound snapshot).forumPosts <:+ (boundCounts snapshot).forumPosts := by
  rw [bound, boundBytes]
  refine ⟨?_, dropWhileTooLarge_suffix _ _⟩
  dsimp only
  split
  · exact dropAllButOne_suffix _ _
  · exact List.suffix_rfl

/-! ## Exactly when the newest are kept -/

section Kept

variable (found : Option JoinedHistorySnapshot) (target : JoinedRoomTarget)
  (body : PostedHistory) (now : String)

/-- The snapshot the batch is merged into. -/
def currentSnapshot : JoinedHistorySnapshot := found.getD (receivedEntry target body now).fresh

/-- The snapshot before the byte cap. -/
def countedSnapshot : JoinedHistorySnapshot :=
  boundCounts (mergeSnapshot (currentSnapshot found target body now)
    (receivedEntry target body now))

variable {found target body now}

theorem countedSnapshot_forumPosts :
    (countedSnapshot found target body now).forumPosts =
      newestOf snapshotMaxForumPosts
        (receivedPosts (currentSnapshot found target body now) body).values := by
  rw [countedSnapshot, boundCounts_forumPosts, mergeSnapshot_forumPosts, mergeForumPosts_eq,
    receivedPosts, receivedEntry]

theorem countedSnapshot_threads :
    (countedSnapshot found target body now).forumPosts.map (·.id) =
      newestOf snapshotMaxForumPosts
        (receivedPosts (currentSnapshot found target body now) body).keys := by
  rw [countedSnapshot_forumPosts, ← newestOf_map,
    OrderedMap.map_values (receivedPosts_names _ _)]

/-- The posts that are counted stand under their ids. -/
theorem mem_counted_iff {post : SnapshotForumPost} {id : String} :
    post ∈ (countedSnapshot found target body now).forumPosts ∧ post.id = id ↔
      id ∈ newestOf snapshotMaxForumPosts
          (receivedPosts (currentSnapshot found target body now) body).keys ∧
        (receivedPosts (currentSnapshot found target body now) body).get? id = some post := by
  rw [countedSnapshot_forumPosts, mem_newestOf_values_iff]
  constructor
  · rintro ⟨⟨k, hk, hget⟩, rfl⟩
    rw [receivedPosts_names _ _ k post hget]
    exact ⟨hk, hget⟩
  · exact fun ⟨hk, hget⟩ => ⟨⟨id, hk, hget⟩, receivedPosts_names _ _ id post hget⟩

end Kept

/-- For every stored snapshot and every batch, the newest are kept if and only if the
receiver leaves nothing behind that is to be stored. -/
theorem recordedSnapshot_newestKept_iff (found : Option JoinedHistorySnapshot)
    (target : JoinedRoomTarget) (body : PostedHistory) (now : String) (h : ValidIds body) :
    NewestKept (currentSnapshot found target body now) body
        (countedSnapshot found target body now)
        (recordedSnapshot found (receivedEntry target body now)) ↔
      NothingLeftBehind (currentSnapshot found target body now) body := by
  set current := currentSnapshot found target body now with hcurrent
  have hmessages := messages_newest_iff current target body now
  have hthreads := @threads_newest_iff current body h
  constructor
  · intro hkept
    have hlate := hthreads.mp (countedSnapshot_threads.symm.trans hkept.threads)
    have hunion := hthreads.mpr hlate
    refine ⟨hmessages.mp hkept.messages, hlate, fun entry hentry hretained => ?_,
      fun entry hentry hretained hne post hstored => ?_⟩
    · by_cases hne : commentItems entry = []
      · rw [hne]
        exact Nat.zero_le _
      · obtain ⟨post, hget, hcomments⟩ := @get?_early current body h _ hentry
        obtain ⟨hpost, hid⟩ := mem_counted_iff.mpr ⟨hunion ▸ hretained, hget⟩
        have hall : entry ∈ threadsOf (itemsOf body.forumPosts) := by
          rw [threadsOf_split _ snapshotMaxForumPosts]
          exact List.mem_append_left _ hentry
        have hsame := (hcomments hne).symm.trans (hkept.comments entry hall hne post hpost hid)
        rw [take_eq_newestOf_iff (by decide) (h.comments entry hall), commentIds,
          List.length_map] at hsame
        exact hsame
    · have hget := (get?_late h hentry).trans hstored
      obtain ⟨hpost, hid⟩ := mem_counted_iff.mpr ⟨hunion ▸ hretained, hget⟩
      have hall : entry ∈ threadsOf (itemsOf body.forumPosts) := by
        rw [threadsOf_split _ snapshotMaxForumPosts]
        exact List.mem_append_right _ hentry
      exact hkept.comments entry hall hne post hpost hid
  · intro hnothing
    have hunion := hthreads.mpr hnothing.threads
    refine ⟨hmessages.mpr hnothing.messages, countedSnapshot_threads.trans hunion,
      fun entry hentry hne post hpost hid => ?_, bound_suffix _⟩
    obtain ⟨hretained, hget⟩ := mem_counted_iff.mp ⟨hpost, hid⟩
    rw [hunion] at hretained
    rw [threadsOf_split _ snapshotMaxForumPosts, List.mem_append] at hentry
    rcases hentry with hearly | hlate
    · obtain ⟨other, hother, hcomments⟩ := @get?_early current body h _ hearly
      obtain rfl : post = other := Option.some.inj (hget.symm.trans hother)
      have hall : entry ∈ threadsOf (itemsOf body.forumPosts) := by
        rw [threadsOf_split _ snapshotMaxForumPosts]
        exact List.mem_append_left _ hearly
      rw [hcomments hne, take_eq_newestOf_iff (by decide) (h.comments entry hall), commentIds,
        List.length_map]
      exact hnothing.comments entry hearly hretained
    · rw [get?_late h hlate] at hget
      exact hnothing.lateComments entry hlate hretained hne post hget

/-- A first batch: a message, and a thread with a comment. -/
def firstBatch : PostedHistory where
  messages := some (.arr [.obj [("id", .num 7), ("text", .str "hi")]])
  forumPosts := some (.arr [.obj [("id", .str "p1"),
    ("comments", .arr [.obj [("id", .str "c1")]])]])

theorem recordedSnapshot_newestKept_iff_firstBatch :
    NewestKept (currentSnapshot none ⟨"r", "https://host"⟩ firstBatch "t") firstBatch
        (countedSnapshot none ⟨"r", "https://host"⟩ firstBatch "t")
        (recordedSnapshot none (receivedEntry ⟨"r", "https://host"⟩ firstBatch "t")) ↔
      NothingLeftBehind (currentSnapshot none ⟨"r", "https://host"⟩ firstBatch "t")
        firstBatch :=
  recordedSnapshot_newestKept_iff none ⟨"r", "https://host"⟩ firstBatch "t"
    ⟨by decide, by decide⟩

def numberedMessage (n : Nat) : Json := .obj [("id", .num (Int.ofNat n))]

/-- One message more than a snapshot holds, in ascending order. -/
def longBatch : PostedHistory where
  messages := some (.arr ((List.range 251).map numberedMessage))
  forumPosts := none

/-- Of a long batch, the newest message is the one that is not stored. -/
theorem recordedSnapshot_drops_newest :
    ¬ ∀ (found : Option JoinedHistorySnapshot) (target : JoinedRoomTarget)
        (body : PostedHistory) (now : String), ValidIds body →
      NewestKept (currentSnapshot found target body now) body
        (countedSnapshot found target body now)
        (recordedSnapshot found (receivedEntry target body now)) := by
  intro h
  have hvalid : ValidIds longBatch := ⟨List.nodup_nil, fun _ hentry => nomatch hentry⟩
  have hkept := h none ⟨"r", "https://host"⟩ longBatch "t" hvalid
  have hids (n : Nat) : postedIds ((List.range n).map numberedMessage) =
      (List.range n).map Int.ofNat := by
    rw [postedIds, List.filterMap_map, ← List.filterMap_eq_map]
    rfl
  have hunion : unionIds (currentSnapshot none ⟨"r", "https://host"⟩ longBatch "t") longBatch =
      ((List.range 251).map Int.ofNat).toFinset := by
    rw [← hids]
    exact Finset.empty_union _
  have hlast := (messages_newest_iff _ _ _ _).mp hkept.messages 250
  rw [hunion] at hlast
  have habove : above ((List.range 251).map Int.ofNat).toFinset 250 = 0 := by
    rw [above, Finset.card_eq_zero, Finset.filter_eq_empty_iff]
    intro i hi
    simp only [List.mem_toFinset, List.mem_map, List.mem_range] at hi
    obtain ⟨n, hn, rfl⟩ := hi
    simp only [Int.ofNat_eq_natCast, not_lt]
    omega
  have hmem : (250 : Int) ∈ ((List.range 251).map Int.ofNat).toFinset :=
    List.mem_toFinset.mpr (List.mem_map.mpr ⟨250, by simp, rfl⟩)
  rcases hlast hmem (by rw [habove]; decide) with hstored | hreceived
  · cases hstored
  · have htake : (itemsOf longBatch.messages).take snapshotMaxMessages =
        (List.range 250).map numberedMessage := by
      rw [longBatch, itemsOf, ← List.map_take, List.take_range, snapshotMaxMessages]
      rfl
    rw [htake, hids] at hreceived
    obtain ⟨n, hn, hsame⟩ := List.mem_map.mp hreceived
    have hlt := List.mem_range.mp hn
    have heq : n = 250 := Int.ofNat.inj hsame
    omega

end AgentGather.Platform
