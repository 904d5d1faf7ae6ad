import AgentGather.Library.JsonSize
import AgentGather.Storage.JoinedHistory

/-!
# The bounds of a snapshot

What is written stays within the caps on entries and on bytes, and holds the newest of the
messages.  Each stored text is cut to so many code units that a single message fits beside
the header, whatever its characters are; so the loop never has to keep too much.
-/

namespace AgentGather.Storage

open AgentGather.Library

/-! ## The loop -/

/-- The condition of the loop: the text is too large, and something may go. -/
def mustTrim (snapshot : JoinedHistorySnapshot) : Bool :=
  snapshotMaxBytes < serializedBytes snapshot &&
    (1 < snapshot.messages.length || 0 < snapshot.forumPosts.length)

/-- Its body. -/
def trimOldest (snapshot : JoinedHistorySnapshot) : JoinedHistorySnapshot :=
  if 0 < snapshot.forumPosts.length then
    { snapshot with forumPosts := snapshot.forumPosts.drop 1 }
  else { snapshot with messages := snapshot.messages.drop 1 }

/-- The loop, at most `fuel` times. -/
def trimLoop : Nat → JoinedHistorySnapshot → Option JoinedHistorySnapshot
  | 0, _ => none
  | fuel + 1, snapshot =>
      if mustTrim snapshot then trimLoop fuel (trimOldest snapshot) else some snapshot

/-- The body is run while the text is too large. -/
theorem trimLoop_succ (fuel : Nat) (snapshot : JoinedHistorySnapshot)
    (h : 1 < snapshot.messages.length ∨ 0 < snapshot.forumPosts.length) :
    trimLoop (fuel + 1) snapshot =
      if snapshotMaxBytes < serializedBytes snapshot then trimLoop fuel (trimOldest snapshot)
      else some snapshot := by
  have hsome : (decide (1 < snapshot.messages.length) ||
      decide (0 < snapshot.forumPosts.length)) = true := by
    simpa using h
  simp only [trimLoop, mustTrim, hsome, Bool.and_true, decide_eq_true_eq]

/-- Where nothing may go the loop ends. -/
theorem trimLoop_done (fuel : Nat) (snapshot : JoinedHistorySnapshot)
    (hmessages : snapshot.messages.length ≤ 1) (hposts : snapshot.forumPosts = []) :
    trimLoop (fuel + 1) snapshot = some snapshot := by
  have hnone : mustTrim snapshot = false := by
    simp [mustTrim, hposts, hmessages]
  simp [trimLoop, hnone]

/-- Without posts, the loop drops messages down to the last one. -/
theorem trimLoop_messages (snapshot : JoinedHistorySnapshot) (messages : List SnapshotMessage)
    (fuel : Nat) (hfuel : messages.length < fuel) :
    trimLoop fuel { snapshot with messages := messages, forumPosts := [] } =
      some { snapshot with
        messages := dropAllButOne (fun messages => snapshotMaxBytes <
          serializedBytes { snapshot with messages := messages, forumPosts := [] }) messages
        forumPosts := [] } := by
  induction messages generalizing fuel with
  | nil =>
      obtain ⟨fuel, rfl⟩ := Nat.exists_eq_add_one_of_ne_zero (Nat.ne_zero_of_lt hfuel)
      exact trimLoop_done fuel _ (Nat.zero_le _) rfl
  | cons first rest ih =>
      obtain ⟨fuel, rfl⟩ := Nat.exists_eq_add_one_of_ne_zero (Nat.ne_zero_of_lt hfuel)
      cases rest with
      | nil => exact trimLoop_done fuel _ (Nat.le_refl _) rfl
      | cons second rest =>
          rw [trimLoop_succ fuel _ (.inl (by simp)), dropAllButOne]
          simp only [decide_eq_true_eq]
          split
          · exact ih fuel (Nat.lt_of_succ_lt_succ hfuel)
          · rfl

/-- The loop ends, and leaves what `boundBytes` says. -/
theorem trimLoop_posts (snapshot : JoinedHistorySnapshot) (posts : List SnapshotForumPost)
    (fuel : Nat) (hfuel : snapshot.messages.length + posts.length < fuel) :
    trimLoop fuel { snapshot with forumPosts := posts } =
      some (boundBytes { snapshot with forumPosts := posts }) := by
  induction posts generalizing fuel with
  | nil => exact trimLoop_messages snapshot snapshot.messages fuel hfuel
  | cons post posts ih =>
      obtain ⟨fuel, rfl⟩ := Nat.exists_eq_add_one_of_ne_zero (Nat.ne_zero_of_lt hfuel)
      rw [trimLoop_succ fuel _ (.inr (by simp))]
      split
      · rename_i hlarge
        have hbound : boundBytes { snapshot with forumPosts := post :: posts } =
            boundBytes { snapshot with forumPosts := posts } := by
          simp only [boundBytes, dropWhileTooLarge, hlarge, decide_true, if_true]
        rw [hbound]
        exact ih fuel (Nat.lt_of_succ_lt_succ hfuel)
      · rename_i hfits
        simp [boundBytes, dropWhileTooLarge, hfits]

theorem trimLoop_eq (snapshot : JoinedHistorySnapshot) {fuel : Nat}
    (hfuel : snapshot.messages.length + snapshot.forumPosts.length < fuel) :
    trimLoop fuel snapshot = some (boundBytes snapshot) :=
  trimLoop_posts snapshot snapshot.forumPosts fuel hfuel

/-! ## Sizes -/

/-- The bytes of the texts of the header, as they are written. -/
def headerBytes (entry : HistoryEntry) : Nat :=
  Utf8.byteLength (Json.printString entry.roomId) +
    Utf8.byteLength (Json.printString entry.baseUrl) +
      Utf8.byteLength (Json.printString entry.savedAt)

/-- The numbers of the source have at most 309 digits before the point. -/
def IsFinite (id : Int) : Prop := id.natAbs < 10 ^ 309

theorem IsFinite.byteLength_le {id : Int} (h : IsFinite id) :
    Utf8.byteLength (Json.printInt id) ≤ 310 :=
  Json.byteLength_printInt_le (by decide) h

theorem isFinite_of_lt_ten {id : Int} (h : id.natAbs < 10) : IsFinite id := by
  have hpower (k : Nat) (hk : 1 ≤ k) : 10 ≤ 10 ^ k := Nat.pow_le_pow_right (n := 10) (by decide) hk
  exact Nat.lt_of_lt_of_le h (hpower 309 (by decide))

/-- A stored text within its cap. -/
theorem byteLength_redactText_le (text : String) :
    Utf8.byteLength (Json.printString (redactText text)) ≤ 24002 := by
  have hliteral := Json.byteLength_printString_le (redactText text)
  have hcut : Text.utf16Length (redactText text).toList ≤ snapshotMaxTextChars := by
    rw [redactText, String.toList_ofList]
    exact Text.utf16Length_sliceTo_le _ _
  unfold snapshotMaxTextChars at hcut
  omega

theorem serializedBytes_eq (snapshot : JoinedHistorySnapshot) :
    serializedBytes snapshot = Json.indentedBytes 0 snapshot.toJson + 1 := by
  rw [serializedBytes, serializeSnapshot]
  exact Utf8.byteLength_append _ _

/-- A message that is stored fits on its own. -/
theorem indentedBytes_message_le (depth : Nat) (message : SnapshotMessage)
    (hid : IsFinite message.id) :
    Json.indentedBytes depth message.redacted.toJson ≤ 96400 + 12 * (depth + 1) := by
  have hid := hid.byteLength_le
  have hsender := byteLength_redactText_le message.sender
  have hts := byteLength_redactText_le message.ts
  have htype := byteLength_redactText_le message.type
  have htext := byteLength_redactText_le message.text
  have hkeys : Utf8.byteLength (Json.printString "id") = 4 ∧
      Utf8.byteLength (Json.printString "from") = 6 ∧
      Utf8.byteLength (Json.printString "ts") = 4 ∧
      Utf8.byteLength (Json.printString "type") = 6 ∧
      Utf8.byteLength (Json.printString "text") = 6 := by decide
  rw [SnapshotMessage.toJson, Json.indentedBytes_obj]
  simp only [SnapshotMessage.redacted, List.map_cons, List.map_nil, List.sum_cons, List.sum_nil,
    Json.memberBytes, Json.indentedBytes_num, Json.indentedBytes_str, hkeys]
  omega

/-- A snapshot without posts and with at most one message fits. -/
theorem serializedBytes_le (snapshot : JoinedHistorySnapshot)
    (hposts : snapshot.forumPosts = [])
    (hmessages : snapshot.messages = [] ∨
      ∃ message : SnapshotMessage, IsFinite message.id ∧ snapshot.messages = [message.redacted])
    (hcursor : IsFinite snapshot.cursor)
    (hheader : Utf8.byteLength (Json.printString snapshot.roomId) +
      Utf8.byteLength (Json.printString snapshot.baseUrl) +
      Utf8.byteLength (Json.printString snapshot.savedAt) ≤ 90000) :
    serializedBytes snapshot ≤ snapshotMaxBytes := by
  have hcursor := hcursor.byteLength_le
  have hkeys : Utf8.byteLength (Json.printString "roomId") = 8 ∧
      Utf8.byteLength (Json.printString "baseUrl") = 9 ∧
      Utf8.byteLength (Json.printString "cursor") = 8 ∧
      Utf8.byteLength (Json.printString "savedAt") = 9 ∧
      Utf8.byteLength (Json.printString "messages") = 10 ∧
      Utf8.byteLength (Json.printString "forumPosts") = 12 := by decide
  have hlist : Json.indentedBytes 1 (.arr (snapshot.messages.map SnapshotMessage.toJson)) ≤
      97000 := by
    rcases hmessages with hnil | ⟨message, hid, hsingle⟩
    · rw [hnil, List.map_nil, Json.indentedBytes_arr_nil]
      decide
    · have hmessage := indentedBytes_message_le (1 + 1) message hid
      rw [hsingle, List.map_cons, List.map_nil, Json.indentedBytes_arr, List.map_cons,
        List.map_nil, List.sum_cons, List.sum_nil]
      omega
  rw [serializedBytes_eq, JoinedHistorySnapshot.toJson, Json.indentedBytes_obj]
  simp only [hposts, List.map_cons, List.map_nil, List.sum_cons, List.sum_nil, Json.memberBytes,
    Json.indentedBytes_num, Json.indentedBytes_str, Json.indentedBytes_arr_nil, hkeys,
    snapshotMaxBytes, Nat.zero_add]
  omega

/-! ## What the loop leaves -/

theorem dropWhileTooLarge_fits {α : Type} (tooLarge : List α → Bool) (items : List α) :
    dropWhileTooLarge tooLarge items = [] ∨
      tooLarge (dropWhileTooLarge tooLarge items) = false := by
  induction items with
  | nil => exact .inl rfl
  | cons a rest ih =>
      rw [dropWhileTooLarge]
      split
      · exact ih
      · rename_i hfits
        exact .inr (Bool.eq_false_iff.mpr hfits)

theorem dropAllButOne_fits {α : Type} (tooLarge : List α → Bool) (items : List α) :
    (dropAllButOne tooLarge items).length ≤ 1 ∨
      tooLarge (dropAllButOne tooLarge items) = false := by
  induction items with
  | nil => exact .inl (Nat.zero_le _)
  | cons a rest ih =>
      cases rest with
      | nil => exact .inl (Nat.le_refl _)
      | cons b rest =>
          rw [dropAllButOne]
          split
          · exact ih
          · rename_i hfits
            exact .inr (Bool.eq_false_iff.mpr hfits)

theorem dropAllButOne_eq_nil_iff {α : Type} (tooLarge : List α → Bool) (items : List α) :
    dropAllButOne tooLarge items = [] ↔ items = [] := by
  induction items with
  | nil => exact Iff.rfl
  | cons a rest ih =>
      cases rest with
      | nil => exact Iff.rfl
      | cons b rest =>
          rw [dropAllButOne]
          split
          · simpa using ih
          · simp

theorem boundBytes_messages_suffix (snapshot : JoinedHistorySnapshot) :
    (boundBytes snapshot).messages <:+ snapshot.messages := by
  unfold boundBytes
  dsimp only
  split
  · exact dropAllButOne_suffix _ _
  · exact List.suffix_rfl

theorem boundBytes_forumPosts_suffix (snapshot : JoinedHistorySnapshot) :
    (boundBytes snapshot).forumPosts <:+ snapshot.forumPosts := dropWhileTooLarge_suffix _ _

theorem boundBytes_messages_eq_nil_iff (snapshot : JoinedHistorySnapshot) :
    (boundBytes snapshot).messages = [] ↔ snapshot.messages = [] := by
  unfold boundBytes
  dsimp only
  split
  · exact dropAllButOne_eq_nil_iff _ _
  · exact Iff.rfl

/-- No message goes while a post is there. -/
theorem boundBytes_messages_of_posts (snapshot : JoinedHistorySnapshot)
    (h : (boundBytes snapshot).forumPosts ≠ []) :
    (boundBytes snapshot).messages = snapshot.messages := by
  unfold boundBytes at h ⊢
  exact if_neg h

/-- At the end of the loop the text fits, or nothing may go. -/
theorem boundBytes_exit (snapshot : JoinedHistorySnapshot) :
    serializedBytes (boundBytes snapshot) ≤ snapshotMaxBytes ∨
      (boundBytes snapshot).forumPosts = [] ∧ (boundBytes snapshot).messages.length ≤ 1 := by
  by_cases hposts : (boundBytes snapshot).forumPosts = []
  · have hmessages : (boundBytes snapshot).messages =
        dropAllButOne (fun messages => snapshotMaxBytes <
          serializedBytes { snapshot with messages := messages, forumPosts := [] })
          snapshot.messages := by
      unfold boundBytes at hposts ⊢
      exact if_pos hposts
    have hself : boundBytes snapshot = { snapshot with
        messages := (boundBytes snapshot).messages, forumPosts := [] } := by
      conv_rhs => rw [← hposts]
      rfl
    rcases dropAllButOne_fits (fun messages => decide (snapshotMaxBytes <
        serializedBytes { snapshot with messages := messages, forumPosts := [] }))
        snapshot.messages with hone | hfits
    · exact .inr ⟨hposts, hmessages ▸ hone⟩
    · left
      rw [hself, hmessages]
      exact Nat.le_of_not_lt (of_decide_eq_false hfits)
  · left
    have hmessages := boundBytes_messages_of_posts snapshot hposts
    have hself : boundBytes snapshot =
        { snapshot with forumPosts := (boundBytes snapshot).forumPosts } := by
      conv_rhs => rw [← hmessages]
      rfl
    rcases dropWhileTooLarge_fits (fun posts => decide (snapshotMaxBytes <
        serializedBytes { snapshot with forumPosts := posts })) snapshot.forumPosts with
      hnil | hfits
    · exact absurd hnil hposts
    · rw [hself]
      exact Nat.le_of_not_lt (of_decide_eq_false hfits)

/-! ## The cursor -/

theorem foldl_max_le_iff (messages : List SnapshotMessage) (start n : Int) :
    messages.foldl (fun highest message => max highest message.id) start ≤ n ↔
      start ≤ n ∧ ∀ message ∈ messages, message.id ≤ n := by
  induction messages generalizing start with
  | nil => simp
  | cons message messages ih =>
      rw [List.foldl_cons, ih, max_le_iff, List.forall_mem_cons, and_assoc]

theorem highestId_le_iff {messages : List SnapshotMessage} {n : Int} :
    highestId messages ≤ n ↔ 0 ≤ n ∧ ∀ message ∈ messages, message.id ≤ n :=
  foldl_max_le_iff messages 0 n

theorem highestId_nonneg (messages : List SnapshotMessage) : 0 ≤ highestId messages :=
  (highestId_le_iff.mp le_rfl).1

theorem le_highestId {messages : List SnapshotMessage} {message : SnapshotMessage}
    (h : message ∈ messages) : message.id ≤ highestId messages :=
  (highestId_le_iff.mp le_rfl).2 message h

/-- It is the id of a message, unless no id is positive. -/
theorem highestId_mem (messages : List SnapshotMessage) :
    highestId messages = 0 ∨ ∃ message ∈ messages, message.id = highestId messages := by
  by_contra h
  rw [not_or] at h
  obtain ⟨hzero, hnone⟩ := h
  have hpos : 0 < highestId messages := lt_of_le_of_ne (highestId_nonneg _) (Ne.symm hzero)
  have hbelow : highestId messages ≤ highestId messages - 1 := by
    refine highestId_le_iff.mpr ⟨by omega, fun message hmem => ?_⟩
    have hne : message.id ≠ highestId messages := fun heq => hnone ⟨message, hmem, heq⟩
    have hle := le_highestId hmem
    omega
  omega

theorem isFinite_highestId {messages : List SnapshotMessage}
    (h : ∀ message ∈ messages, IsFinite message.id) : IsFinite (highestId messages) := by
  rcases highestId_mem messages with hzero | ⟨message, hmem, heq⟩
  · exact hzero ▸ isFinite_of_lt_ten (by decide)
  · exact heq ▸ h message hmem

/-- An ascending list ends with its highest id. -/
theorem exists_last_of_suffix {kept all : List SnapshotMessage}
    (hascending : (all.map (·.id)).Pairwise (· < ·)) (hsuffix : kept <:+ all)
    (hkept : kept ≠ []) : ∃ last ∈ kept, ∀ message ∈ all, message.id ≤ last.id := by
  refine ⟨kept.getLast hkept, List.getLast_mem hkept, fun message hmem => ?_⟩
  obtain ⟨dropped, rfl⟩ := hsuffix
  rw [← List.dropLast_append_getLast hkept, ← List.append_assoc, List.map_append,
    List.map_singleton, List.pairwise_append] at hascending
  rw [← List.dropLast_append_getLast hkept, ← List.append_assoc, List.mem_append,
    List.mem_singleton] at hmem
  rcases hmem with hbefore | rfl
  · exact (hascending.2.2 _ (List.mem_map_of_mem hbefore) _ (List.mem_singleton_self _)).le
  · exact le_rfl

/-- What is dropped from the front of an ascending list is not the highest. -/
theorem highestId_of_suffix {kept all : List SnapshotMessage}
    (hascending : (all.map (·.id)).Pairwise (· < ·)) (hsuffix : kept <:+ all)
    (hnil : kept = [] → all = []) : highestId kept = highestId all := by
  by_cases hkept : kept = []
  · rw [hkept, hnil hkept]
  · obtain ⟨last, hlast, hmax⟩ := exists_last_of_suffix hascending hsuffix hkept
    apply le_antisymm
    · refine highestId_le_iff.mpr ⟨highestId_nonneg _, fun message hmem => ?_⟩
      exact le_highestId (hsuffix.subset hmem)
    · refine highestId_le_iff.mpr ⟨highestId_nonneg _, fun message hmem => ?_⟩
      exact (hmax message hmem).trans (le_highestId hlast)

/-! ## What is to be stored -/

/-- The message of an id that counts: the last one. -/
def latest (messages : List SnapshotMessage) (id : Int) : Option SnapshotMessage :=
  messages.reverse.find? fun message => message.id = id

/-- The stored and the received messages as they are to be stored, in ascending order; of one
id the received one counts. -/
structure IsUnion (stored incoming union : List SnapshotMessage) : Prop where
  ascending : (union.map (·.id)).Pairwise (· < ·)
  mem_iff : ∀ message, message ∈ union ↔
    (latest (stored ++ incoming) message.id).map SnapshotMessage.redacted = some message

/-- The caps hold, and what is left of the messages is the newest part of them. -/
structure WithinBounds (stored incoming : List SnapshotMessage)
    (written : JoinedHistorySnapshot) : Prop where
  messages : written.messages.length ≤ snapshotMaxMessages
  forumPosts : written.forumPosts.length ≤ snapshotMaxForumPosts
  bytes : serializedBytes written ≤ snapshotMaxBytes
  ascending : (written.messages.map (·.id)).Pairwise (· < ·)
  /-- Only the cap on their number drops messages while a post is there. -/
  newest : ∃ union, IsUnion stored incoming union ∧ written.messages <:+ union ∧
    (written.forumPosts ≠ [] → written.messages = newestOf snapshotMaxMessages union)

/-- The cursor is the highest id of the messages, and 0 without any. -/
structure CursorIsHighest (written : JoinedHistorySnapshot) : Prop where
  empty : written.messages = [] → written.cursor = 0
  highest : written.messages ≠ [] →
    (∃ message ∈ written.messages, message.id = written.cursor) ∧
      ∀ message ∈ written.messages, message.id ≤ written.cursor

def storedMessages (found : Option JoinedHistorySnapshot) : List SnapshotMessage :=
  (found.map (·.messages)).getD []

/-- The loop ends, and what it leaves is written. -/
def LoopEnds (found : Option JoinedHistorySnapshot) (entry : HistoryEntry) : Prop :=
  ∃ fuel trimmed,
    trimLoop fuel (boundCounts (mergeSnapshot (found.getD entry.fresh) entry)) = some trimmed ∧
      recordedSnapshot found entry = { trimmed with cursor := highestId trimmed.messages }

section Recorded

variable (found : Option JoinedHistorySnapshot) (entry : HistoryEntry)

theorem loopEnds : LoopEnds found entry := by
  refine ⟨_, _, trimLoop_eq _ (Nat.lt_succ_self _), rfl⟩

/-- The merged messages. -/
def merged : List SnapshotMessage := mergeMessages (storedMessages found) entry.messages

theorem mergeSnapshot_messages_eq :
    (mergeSnapshot (found.getD entry.fresh) entry).messages = merged found entry := by
  cases found with
  | none => rfl
  | some current => rfl

theorem merged_isUnion : IsUnion (storedMessages found) entry.messages (merged found entry) where
  ascending := mergeMessages_ascending _ _
  mem_iff message := by
    have hnames := messagesById_names (storedMessages found ++ entry.messages)
    have hget (id : Int) : (messagesById (storedMessages found ++ entry.messages)).get? id =
        (latest (storedMessages found ++ entry.messages) id).map SnapshotMessage.redacted := by
      rw [messagesById_eq, OrderedMap.get?_setAll_latest, OrderedMap.get?_empty, Option.or_none,
        latest]
    rw [merged, (mergeMessages_perm _ _).mem_iff, OrderedMap.mem_values_iff]
    constructor
    · rintro ⟨id, h⟩
      rw [hnames id message h, ← hget, h]
    · intro h
      exact ⟨message.id, (hget _).trans h⟩

/-- The merged snapshot after the loop. -/
def bounded : JoinedHistorySnapshot :=
  boundBytes (boundCounts (mergeSnapshot (found.getD entry.fresh) entry))

theorem newestOf_suffix {α : Type} (n : Nat) (items : List α) : newestOf n items <:+ items :=
  List.drop_suffix _ _

theorem length_newestOf_le {α : Type} (n : Nat) (items : List α) :
    (newestOf n items).length ≤ n := by
  rw [newestOf, List.length_drop]
  omega

theorem bounded_messages_suffix :
    (bounded found entry).messages <:+ newestOf snapshotMaxMessages (merged found entry) := by
  have h := boundBytes_messages_suffix
    (boundCounts (mergeSnapshot (found.getD entry.fresh) entry))
  rwa [boundCounts_messages, mergeSnapshot_messages_eq] at h

theorem bounded_messages_eq_nil_iff :
    (bounded found entry).messages = [] ↔ merged found entry = [] := by
  rw [bounded, boundBytes_messages_eq_nil_iff, boundCounts_messages, mergeSnapshot_messages_eq,
    newestOf, List.drop_eq_nil_iff]
  constructor
  · intro h
    apply List.length_eq_zero_iff.mp
    unfold snapshotMaxMessages at h
    omega
  · intro h
    rw [h]
    exact Nat.zero_le _

/-- The loop measures the text with the cursor that is written. -/
theorem recordedSnapshot_eq_bounded : recordedSnapshot found entry = bounded found entry := by
  have hcursor : (bounded found entry).cursor = highestId (merged found entry) := by
    rw [← mergeSnapshot_messages_eq]
    rfl
  have hsame := highestId_of_suffix (merged_isUnion found entry).ascending
    ((bounded_messages_suffix found entry).trans (newestOf_suffix _ _))
    (bounded_messages_eq_nil_iff found entry).mp
  calc recordedSnapshot found entry
      = { bounded found entry with cursor := highestId (bounded found entry).messages } := rfl
    _ = bounded found entry := by rw [hsame, ← hcursor]

theorem mem_merged_id (id : Int) : id ∈ (merged found entry).map (·.id) ↔
    id ∈ (storedMessages found ++ entry.messages).map (·.id) := by
  rw [merged, mem_mergeMessages, List.map_append, List.mem_append]

theorem recordedSnapshot_bytes
    (hids : ∀ message ∈ storedMessages found ++ entry.messages, IsFinite message.id)
    (hheader : headerBytes entry ≤ 90000) :
    serializedBytes (bounded found entry) ≤ snapshotMaxBytes := by
  have hfinite : ∀ message ∈ merged found entry, IsFinite message.id := by
    intro message hmem
    obtain ⟨original, horiginal, heq⟩ := List.mem_map.mp
      ((mem_merged_id found entry _).mp (List.mem_map_of_mem hmem))
    exact heq ▸ hids original horiginal
  rcases boundBytes_exit (boundCounts (mergeSnapshot (found.getD entry.fresh) entry)) with
    hfits | ⟨hposts, hone⟩
  · exact hfits
  · refine serializedBytes_le (bounded found entry) hposts ?_ ?_ hheader
    · change (bounded found entry).messages.length ≤ 1 at hone
      rcases hmessages : (bounded found entry).messages with _ | ⟨message, rest⟩
      · exact .inl rfl
      · rw [hmessages, List.length_cons] at hone
        have hrest : rest = [] := List.length_eq_zero_iff.mp (by omega)
        have hmem : message ∈ merged found entry := by
          apply ((bounded_messages_suffix found entry).trans (newestOf_suffix _ _)).subset
          rw [hmessages]
          exact List.mem_cons_self
        have hlatest := ((merged_isUnion found entry).mem_iff message).mp hmem
        obtain ⟨original, -, heq⟩ := Option.map_eq_some_iff.mp hlatest
        refine .inr ⟨original, ?_, by rw [hrest, heq]⟩
        rw [← original.redacted_id, heq]
        exact hfinite message hmem
    · change IsFinite (highestId (mergeSnapshot (found.getD entry.fresh) entry).messages)
      rw [mergeSnapshot_messages_eq]
      exact isFinite_highestId hfinite

theorem recordedSnapshot_withinBounds
    (hids : ∀ message ∈ storedMessages found ++ entry.messages, IsFinite message.id)
    (hheader : headerBytes entry ≤ 90000) :
    WithinBounds (storedMessages found) entry.messages (recordedSnapshot found entry) := by
  have hmessages := bounded_messages_suffix found entry
  have hposts : (bounded found entry).forumPosts <:+
      newestOf snapshotMaxForumPosts
        (mergeSnapshot (found.getD entry.fresh) entry).forumPosts :=
    boundBytes_forumPosts_suffix _
  have hunion := merged_isUnion found entry
  rw [recordedSnapshot_eq_bounded]
  exact
    { messages := hmessages.length_le.trans (length_newestOf_le _ _)
      forumPosts := hposts.length_le.trans (length_newestOf_le _ _)
      bytes := recordedSnapshot_bytes found entry hids hheader
      ascending := hunion.ascending.sublist
        ((hmessages.trans (newestOf_suffix _ _)).sublist.map _)
      newest := by
        refine ⟨merged found entry, hunion, hmessages.trans (newestOf_suffix _ _), fun h => ?_⟩
        rw [bounded, boundBytes_messages_of_posts _ h, boundCounts_messages,
          mergeSnapshot_messages_eq] }

/-- The cursor is never negative, so it is honest only where no id below zero is the highest. -/
theorem cursorIsHighest_iff : CursorIsHighest (recordedSnapshot found entry) ↔
    storedMessages found ++ entry.messages = [] ∨
      ∃ message ∈ storedMessages found ++ entry.messages, 0 ≤ message.id := by
  have hcursor : (recordedSnapshot found entry).cursor =
      highestId (recordedSnapshot found entry).messages := rfl
  have hids := mem_merged_id found entry
  have hnil : (recordedSnapshot found entry).messages = [] ↔ merged found entry = [] := by
    rw [recordedSnapshot_eq_bounded, bounded_messages_eq_nil_iff]
  have hempty : merged found entry = [] ↔ storedMessages found ++ entry.messages = [] := by
    have hmaps : (merged found entry).map (·.id) = [] ↔
        (storedMessages found ++ entry.messages).map (·.id) = [] := by
      simp only [List.eq_nil_iff_forall_not_mem, hids]
    rwa [List.map_eq_nil_iff, List.map_eq_nil_iff] at hmaps
  have hsuffix : (recordedSnapshot found entry).messages <:+ merged found entry := by
    rw [recordedSnapshot_eq_bounded]
    exact (bounded_messages_suffix found entry).trans (newestOf_suffix _ _)
  constructor
  · intro h
    by_cases hmessages : (recordedSnapshot found entry).messages = []
    · exact .inl (hempty.mp (hnil.mp hmessages))
    · obtain ⟨⟨message, hmem, heq⟩, -⟩ := h.highest hmessages
      have hmerged := List.mem_map_of_mem (f := (·.id)) (hsuffix.subset hmem)
      obtain ⟨original, horiginal, hid⟩ := List.mem_map.mp ((hids _).mp hmerged)
      refine .inr ⟨original, horiginal, ?_⟩
      rw [hid, heq, hcursor]
      exact highestId_nonneg _
  · rintro (hnone | ⟨original, horiginal, hpos⟩)
    · have hmessages := hnil.mpr (hempty.mpr hnone)
      refine ⟨fun _ => ?_, fun h => absurd hmessages h⟩
      rw [hcursor, hmessages]
      rfl
    · refine ⟨fun h => ?_, fun hmessages => ⟨?_, fun message hmem => ?_⟩⟩
      · rw [hcursor, h]
        rfl
      · obtain ⟨last, hlast, hmax⟩ :=
          exists_last_of_suffix (merged_isUnion found entry).ascending hsuffix hmessages
        obtain ⟨message, hmem, hid⟩ :=
          List.mem_map.mp ((hids _).mpr (List.mem_map_of_mem horiginal))
        refine ⟨last, hlast, le_antisymm (hcursor ▸ le_highestId hlast) ?_⟩
        have hlastPos : 0 ≤ last.id := by
          have hle := hmax message hmem
          rw [hid] at hle
          exact hpos.trans hle
        rw [hcursor]
        exact highestId_le_iff.mpr ⟨hlastPos, fun m hm => hmax m (hsuffix.subset hm)⟩
      · rw [hcursor]
        exact le_highestId hmem

end Recorded

/-- A batch of one message. -/
def singleEntry (id : Int) : HistoryEntry where
  roomId := "r"
  baseUrl := "https://h"
  messages := [⟨id, "ana", "t", "chat", "hi"⟩]
  forumPosts := []
  savedAt := "t"

end AgentGather.Storage
