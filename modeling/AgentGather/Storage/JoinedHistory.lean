import AgentGather.Library.OrderedMap
import AgentGather.Library.Utf8
import AgentGather.Storage.JoinedRooms
import AgentGather.Storage.Redaction

/-!
# Offline history

The snapshot a device keeps of the history it has received in a joined room, and what
recording a batch makes of it: messages are merged by id, posts by their redacted id, and
the oldest go first where there are too many or the file would be too large.
-/

namespace AgentGather.Storage

open AgentGather.Library

structure SnapshotMessage where
  id : Int
  sender : String
  ts : String
  type : String
  text : String
deriving DecidableEq, Repr

structure SnapshotForumComment where
  id : String
  author : String
  ts : String
  body : String
deriving DecidableEq, Repr

structure SnapshotForumPost where
  id : String
  channel : String
  title : String
  author : String
  ts : String
  status : String
  body : String
  comments : List SnapshotForumComment
deriving DecidableEq, Repr

/-- `cursor` is the highest id of the messages. -/
structure JoinedHistorySnapshot where
  roomId : String
  baseUrl : String
  cursor : Int
  savedAt : String
  messages : List SnapshotMessage
  forumPosts : List SnapshotForumPost
deriving DecidableEq, Repr

def snapshotMaxMessages : Nat := 250

def snapshotMaxForumPosts : Nat := 50

def snapshotMaxCommentsPerPost : Nat := 100

def snapshotMaxBytes : Nat := 200000

/-! ## The file -/

def SnapshotMessage.toJson (message : SnapshotMessage) : Json :=
  .obj [("id", .num message.id), ("from", .str message.sender), ("ts", .str message.ts),
    ("type", .str message.type), ("text", .str message.text)]

def SnapshotForumComment.toJson (comment : SnapshotForumComment) : Json :=
  .obj [("id", .str comment.id), ("author", .str comment.author), ("ts", .str comment.ts),
    ("body", .str comment.body)]

def SnapshotForumPost.toJson (post : SnapshotForumPost) : Json :=
  .obj [("id", .str post.id), ("channel", .str post.channel), ("title", .str post.title),
    ("author", .str post.author), ("ts", .str post.ts), ("status", .str post.status),
    ("body", .str post.body),
    ("comments", .arr (post.comments.map SnapshotForumComment.toJson))]

def JoinedHistorySnapshot.toJson (snapshot : JoinedHistorySnapshot) : Json :=
  .obj [("roomId", .str snapshot.roomId), ("baseUrl", .str snapshot.baseUrl),
    ("cursor", .num snapshot.cursor), ("savedAt", .str snapshot.savedAt),
    ("messages", .arr (snapshot.messages.map SnapshotMessage.toJson)),
    ("forumPosts", .arr (snapshot.forumPosts.map SnapshotForumPost.toJson))]

def serializeSnapshot (snapshot : JoinedHistorySnapshot) : List Char :=
  Json.printIndented 0 snapshot.toJson ++ ['\n']

def serializedBytes (snapshot : JoinedHistorySnapshot) : Nat :=
  (Utf8.encode (serializeSnapshot snapshot)).length

/-! ## Merging -/

def SnapshotMessage.redacted (message : SnapshotMessage) : SnapshotMessage where
  id := message.id
  sender := redactText message.sender
  ts := redactText message.ts
  type := redactText message.type
  text := redactText message.text

@[simp] theorem SnapshotMessage.redacted_id (message : SnapshotMessage) :
    message.redacted.id = message.id := by
  rw [SnapshotMessage.redacted]

def SnapshotForumComment.redacted (comment : SnapshotForumComment) : SnapshotForumComment where
  id := redactText comment.id
  author := redactText comment.author
  ts := redactText comment.ts
  body := redactText comment.body

/-- The last `n` of a list. -/
def newestOf {α : Type} (n : Nat) (items : List α) : List α := items.drop (items.length - n)

def messagesById (messages : List SnapshotMessage) : OrderedMap Int SnapshotMessage :=
  messages.foldl (fun byId message => byId.set message.id message.redacted) .empty

theorem messagesById_eq (messages : List SnapshotMessage) :
    messagesById messages =
      .setAll SnapshotMessage.id (fun _ message => message.redacted) .empty messages := rfl

theorem messagesById_names (messages : List SnapshotMessage) :
    OrderedMap.Names SnapshotMessage.id (messagesById messages) := by
  rw [messagesById_eq]
  apply OrderedMap.names_setAll
  · exact fun _ message => message.redacted_id
  · exact OrderedMap.names_empty _

theorem mem_keys_messagesById (messages : List SnapshotMessage) (id : Int) :
    id ∈ (messagesById messages).keys ↔ id ∈ messages.map (·.id) := by
  rw [messagesById_eq, OrderedMap.mem_keys_setAll]
  simp [OrderedMap.keys, OrderedMap.empty]

def mergeMessages (current incoming : List SnapshotMessage) : List SnapshotMessage :=
  (messagesById (current ++ incoming)).values.mergeSort fun left right => left.id ≤ right.id

theorem mergeMessages_perm (current incoming : List SnapshotMessage) :
    (mergeMessages current incoming).Perm (messagesById (current ++ incoming)).values :=
  List.mergeSort_perm _ _

/-- Merged messages stand in ascending order of their ids, each once. -/
theorem mergeMessages_ascending (current incoming : List SnapshotMessage) :
    ((mergeMessages current incoming).map (·.id)).Pairwise (· < ·) := by
  have hnodup : ((mergeMessages current incoming).map (·.id)).Nodup := by
    rw [((mergeMessages_perm current incoming).map _).nodup_iff,
      OrderedMap.map_values (messagesById_names _)]
    exact OrderedMap.keys_nodup _
  have hsorted : (mergeMessages current incoming).Pairwise fun left right =>
      left.id ≤ right.id := by
    have h := @List.pairwise_mergeSort _ (fun left right : SnapshotMessage =>
      decide (left.id ≤ right.id)) (fun a b c hab hbc => by
        simp only [decide_eq_true_eq] at hab hbc ⊢
        exact hab.trans hbc) (fun a b => by
        simpa using le_total a.id b.id) (messagesById (current ++ incoming)).values
    exact h.imp fun hle => of_decide_eq_true hle
  rw [List.pairwise_map]
  exact (hsorted.and (List.pairwise_map.mp hnodup)).imp fun h => lt_of_le_of_ne h.1 h.2

theorem mem_mergeMessages (current incoming : List SnapshotMessage) (id : Int) :
    id ∈ (mergeMessages current incoming).map (·.id) ↔
      id ∈ current.map (·.id) ∨ id ∈ incoming.map (·.id) := by
  rw [((mergeMessages_perm current incoming).map _).mem_iff,
    OrderedMap.map_values (messagesById_names _), mem_keys_messagesById, List.map_append,
    List.mem_append]

def postsById (posts : List SnapshotForumPost) : OrderedMap String SnapshotForumPost :=
  posts.foldl (fun byId post => byId.set post.id post) .empty

theorem postsById_names (posts : List SnapshotForumPost) :
    OrderedMap.Names SnapshotForumPost.id (postsById posts) := by
  change OrderedMap.Names _ (.setAll SnapshotForumPost.id (fun _ post => post) .empty posts)
  apply OrderedMap.names_setAll
  · exact fun _ _ => rfl
  · exact OrderedMap.names_empty _

/-- The post as it is stored; one without comments keeps those that are stored. -/
def storedPost (existing : Option SnapshotForumPost) (post : SnapshotForumPost) :
    SnapshotForumPost where
  id := redactText post.id
  channel := redactText post.channel
  title := redactText post.title
  author := redactText post.author
  ts := redactText post.ts
  status := redactText post.status
  body := redactText post.body
  comments :=
    (newestOf snapshotMaxCommentsPerPost
      (if post.comments = [] then (existing.map (·.comments)).getD [] else post.comments)).map
        SnapshotForumComment.redacted

@[simp] theorem storedPost_id (existing : Option SnapshotForumPost)
    (post : SnapshotForumPost) : (storedPost existing post).id = redactText post.id := by
  rw [storedPost]

theorem storedPost_comments (existing : Option SnapshotForumPost) {post : SnapshotForumPost}
    (h : post.comments ≠ []) : (storedPost existing post).comments =
      (newestOf snapshotMaxCommentsPerPost post.comments).map
        SnapshotForumComment.redacted := by
  rw [storedPost, if_neg h]

/-- A post that is loaded again replaces its stored copy where it stands. -/
def mergePost (byId : OrderedMap String SnapshotForumPost) (post : SnapshotForumPost) :
    OrderedMap String SnapshotForumPost :=
  byId.set (redactText post.id) (storedPost (byId.get? (redactText post.id)) post)

/-- The posts by id, once a batch is merged. -/
def mergedPosts (current incoming : List SnapshotForumPost) :
    OrderedMap String SnapshotForumPost :=
  .setAll (fun post => redactText post.id)
    (fun byId post => storedPost (byId.get? (redactText post.id)) post) (postsById current)
    incoming

theorem mergedPosts_names (current incoming : List SnapshotForumPost) :
    OrderedMap.Names SnapshotForumPost.id (mergedPosts current incoming) := by
  apply OrderedMap.names_setAll
  · exact fun _ post => storedPost_id _ post
  · exact postsById_names current

def mergeForumPosts (current incoming : List SnapshotForumPost) : List SnapshotForumPost :=
  (incoming.foldl mergePost (postsById current)).values

theorem mergeForumPosts_eq (current incoming : List SnapshotForumPost) :
    mergeForumPosts current incoming = (mergedPosts current incoming).values := rfl

def highestId (messages : List SnapshotMessage) : Int :=
  messages.foldl (fun highest message => max highest message.id) 0

/-! ## Bounding -/

/-- The count caps. -/
def boundCounts (snapshot : JoinedHistorySnapshot) : JoinedHistorySnapshot :=
  { snapshot with
    messages := newestOf snapshotMaxMessages snapshot.messages
    forumPosts := newestOf snapshotMaxForumPosts snapshot.forumPosts }

@[simp] theorem boundCounts_messages (snapshot : JoinedHistorySnapshot) :
    (boundCounts snapshot).messages = newestOf snapshotMaxMessages snapshot.messages := by
  rw [boundCounts]

@[simp] theorem boundCounts_forumPosts (snapshot : JoinedHistorySnapshot) :
    (boundCounts snapshot).forumPosts =
      newestOf snapshotMaxForumPosts snapshot.forumPosts := by
  rw [boundCounts]

/-- Drop from the front while what is left is too large. -/
def dropWhileTooLarge {α : Type} (tooLarge : List α → Bool) : List α → List α
  | [] => []
  | a :: rest => if tooLarge (a :: rest) then dropWhileTooLarge tooLarge rest else a :: rest

/-- The same, but the last one is kept. -/
def dropAllButOne {α : Type} (tooLarge : List α → Bool) : List α → List α
  | [] => []
  | [a] => [a]
  | a :: b :: rest =>
      if tooLarge (a :: b :: rest) then dropAllButOne tooLarge (b :: rest) else a :: b :: rest

theorem dropWhileTooLarge_suffix {α : Type} (tooLarge : List α → Bool) (items : List α) :
    dropWhileTooLarge tooLarge items <:+ items := by
  induction items with
  | nil => exact List.suffix_rfl
  | cons a rest ih =>
      rw [dropWhileTooLarge]
      split
      · exact ih.trans (List.suffix_cons _ _)
      · exact List.suffix_rfl

theorem dropAllButOne_suffix {α : Type} (tooLarge : List α → Bool) (items : List α) :
    dropAllButOne tooLarge items <:+ items := by
  induction items with
  | nil => exact List.suffix_rfl
  | cons a rest ih =>
      cases rest with
      | nil => exact List.suffix_rfl
      | cons b rest =>
          rw [dropAllButOne]
          split
          · exact ih.trans (List.suffix_cons _ _)
          · exact List.suffix_rfl

/-- The byte cap: posts go first, and the messages only when no post is left. -/
def boundBytes (snapshot : JoinedHistorySnapshot) : JoinedHistorySnapshot :=
  let forumPosts := dropWhileTooLarge
    (fun posts => snapshotMaxBytes < serializedBytes { snapshot with forumPosts := posts })
    snapshot.forumPosts
  let messages :=
    if forumPosts = [] then
      dropAllButOne (fun messages => snapshotMaxBytes <
        serializedBytes { snapshot with messages := messages, forumPosts := [] })
        snapshot.messages
    else snapshot.messages
  { snapshot with messages := messages, forumPosts := forumPosts }

def bound (snapshot : JoinedHistorySnapshot) : JoinedHistorySnapshot :=
  let bounded := boundBytes (boundCounts snapshot)
  { bounded with cursor := highestId bounded.messages }

/-! ## Recording -/

/-- A batch for the snapshot of one room. -/
structure HistoryEntry where
  roomId : String
  baseUrl : String
  messages : List SnapshotMessage
  forumPosts : List SnapshotForumPost
  savedAt : String

def HistoryEntry.key (entry : HistoryEntry) : JoinedRoomTarget := ⟨entry.roomId, entry.baseUrl⟩

/-- A snapshot that nothing was recorded in. -/
def HistoryEntry.fresh (entry : HistoryEntry) : JoinedHistorySnapshot :=
  ⟨entry.roomId, entry.baseUrl, 0, entry.savedAt, [], []⟩

/-- The stored snapshot with the batch, before it is bounded. -/
def mergeSnapshot (current : JoinedHistorySnapshot) (entry : HistoryEntry) :
    JoinedHistorySnapshot :=
  let messages := mergeMessages current.messages entry.messages
  { roomId := entry.roomId
    baseUrl := entry.baseUrl
    cursor := highestId messages
    savedAt := entry.savedAt
    messages := messages
    forumPosts := mergeForumPosts current.forumPosts entry.forumPosts }

@[simp] theorem mergeSnapshot_messages (current : JoinedHistorySnapshot)
    (entry : HistoryEntry) : (mergeSnapshot current entry).messages =
      mergeMessages current.messages entry.messages := by
  rw [mergeSnapshot]

@[simp] theorem mergeSnapshot_forumPosts (current : JoinedHistorySnapshot)
    (entry : HistoryEntry) : (mergeSnapshot current entry).forumPosts =
      mergeForumPosts current.forumPosts entry.forumPosts := by
  rw [mergeSnapshot]

/-- The snapshot that is written for the batch; `found` is the one that is stored. -/
def recordedSnapshot (found : Option JoinedHistorySnapshot) (entry : HistoryEntry) :
    JoinedHistorySnapshot :=
  bound (mergeSnapshot (found.getD entry.fresh) entry)

end AgentGather.Storage
