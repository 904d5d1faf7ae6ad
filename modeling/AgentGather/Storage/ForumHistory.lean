import AgentGather.Storage.BoardReads

/-!
# What a history makes of the forum

The abstract forum: threads, each a post with its comments, in the order in which callers have
taken the lock.  Every caller makes at most one record, while it is the last to have taken the
lock.  From that alone follow the order of the comments, their numbers, and that all records of
one post agree but for its status.
-/

namespace AgentGather.Storage.Boards

open AgentGather.Library AgentGather.Protocol

abbrev Threads := PostKey → Option ForumPostThread

def postKey (post : ForumPost) : PostKey := (post.channelId, post.id)

def commentKey (comment : ForumComment) : PostKey := (comment.channelId, comment.postId)

inductive ForumResult where
  | post (post : ForumPost)
  | comment (comment : ForumComment)
deriving DecidableEq, Repr

/-- `made` are the records that callers have written, the latest first; `writing` says that a
file has been begun and not finished. -/
structure ForumHistory where
  threads : Threads
  lockOrder : List Nat
  made : List (Nat × ForumResult)
  writing : Bool

namespace ForumHistory

/-- The thread of a post that is there, changed. -/
def edit (threads : Threads) (key : PostKey) (f : ForumPostThread → ForumPostThread) : Threads :=
  Function.update threads key ((threads key).map f)

/-- The history with one event more. -/
def after (h : ForumHistory) : Event BoardStep → ForumHistory
  | .ran t .acquired => { h with lockOrder := h.lockOrder ++ [t] }
  | .ran _ (.opened _) => { h with writing := true }
  | .ran _ (.wroteByte _) => { h with writing := true }
  | .ran t (.synced post) => {
      threads := Function.update h.threads (postKey post) (some ⟨post, []⟩)
      lockOrder := h.lockOrder
      made := (t, .post post) :: h.made
      writing := false }
  | .ran t (.wrotePost post) => { h with
      threads := edit h.threads (postKey post) fun thread => { thread with post := post }
      made := (t, .post post) :: h.made }
  | .ran t (.appended comment) => {
      threads := edit h.threads (commentKey comment) fun thread =>
        { thread with comments := thread.comments ++ [comment] }
      lockOrder := h.lockOrder
      made := (t, .comment comment) :: h.made
      writing := false }
  | _ => h

end ForumHistory

/-- The comment that caller `t` has added to this post. -/
def commentBy (made : List (Nat × ForumResult)) (key : PostKey) (t : Nat) :
    Option ForumComment :=
  match made.lookup t with
  | some (.comment comment) => if commentKey comment = key then some comment else none
  | _ => none

/-- Who has written this post last, and what. -/
def lastWrite (key : PostKey) : List (Nat × ForumResult) → Option (Nat × ForumPost)
  | [] => none
  | (t, .post post) :: made => if postKey post = key then some (t, post) else lastWrite key made
  | (_, .comment _) :: made => lastWrite key made

/-- The history of some events, the latest event first. -/
def history (start : Threads) : List (Event BoardStep) → ForumHistory
  | [] => ⟨start, [], [], false⟩
  | e :: es => (history start es).after e

theorem history_quiet (start : Threads) {e : Event BoardStep} (es : List (Event BoardStep))
    (h : isQuietEvent e = true) : history start (e :: es) = history start es := by
  rw [history]
  rcases e with ⟨t, l⟩ | ⟨t, l⟩ | p
  · cases l <;> first | rfl | cases h
  · rfl
  · rfl

/-! ## What a history keeps -/

/-- A thread whose records pass the readers' checks and are where they say, with its comments
numbered from one. -/
structure SoundThread (toLowerCase : String → String) (files : BoardFiles) (key : PostKey)
    (thread : ForumPostThread) : Prop where
  place : postKey thread.post = key
  forum : files.checkForum key.1 = .ok ()
  valid : assertValidForumPost toLowerCase thread.post = .ok ()
  comments : ∀ comment ∈ thread.comments,
    commentKey comment = key ∧ assertValidForumComment comment = .ok ()
  numbered : thread.comments.map ForumComment.id =
    (List.range thread.comments.length).map fun i => "c" ++ toString (i + 1)

/-- The records agree but for the status and the time of the last change. -/
def SamePost (p q : ForumPost) : Prop :=
  q = { p with status := q.status, updatedAt := q.updatedAt }

/-- The comments a post had in the beginning. -/
def commentsOf (threads : Threads) (key : PostKey) : List ForumComment :=
  ((threads key).map ForumPostThread.comments).getD []

/-- The readers' check of what a caller has written. -/
def ForumResult.check (toLowerCase : String → String) : ForumResult → Except Failure Unit
  | .post written => assertValidForumPost toLowerCase written
  | .comment added => assertValidForumComment added

structure Consistent (toLowerCase : String → String) (files : BoardFiles) (start : Threads)
    (h : ForumHistory) : Prop where
  /-- Every caller takes the lock once. -/
  order : h.lockOrder.Nodup
  makers : ∀ made ∈ h.made, made.1 ∈ h.lockOrder
  /-- Every caller makes one record. -/
  once : (h.made.map Prod.fst).Nodup
  checked : ∀ made ∈ h.made, made.2.check toLowerCase = .ok ()
  sound : ∀ key thread, h.threads key = some thread → SoundThread toLowerCase files key thread
  absent : ∀ key, h.threads key = none → start key = none ∧
    (∀ made ∈ h.made, ∀ post, made.2 = .post post → postKey post ≠ key) ∧
    ∀ made ∈ h.made, ∀ comment, made.2 = .comment comment → commentKey comment ≠ key
  /-- Comments stand in the order in which their callers have taken the lock. -/
  comments : ∀ key thread, h.threads key = some thread →
    thread.comments = commentsOf start key ++ h.lockOrder.filterMap (commentBy h.made key)
  /-- A post is what was written last. -/
  last : ∀ key thread, h.threads key = some thread →
    (lastWrite key h.made).elim ((start key).map ForumPostThread.post) (fun write => some write.2) =
      some thread.post
  /-- All records of a post agree but for the status. -/
  same : ∀ key thread, h.threads key = some thread →
    (∀ made ∈ h.made, ∀ post, made.2 = .post post → postKey post = key →
      SamePost post thread.post) ∧
    ∀ first, start key = some first → SamePost first.post thread.post

/-- Caller `t` is the last that has taken the lock, has made no record yet, and the threads
are these. -/
structure Turn (t : Nat) (threads : Threads) (h : ForumHistory) : Prop where
  latest : ∃ earlier, h.lockOrder = earlier ++ [t]
  fresh : ∀ made ∈ h.made, made.1 ≠ t
  threads : h.threads = threads

section Steps

variable {toLowerCase : String → String} {files : BoardFiles} {start : Threads}
  {h : ForumHistory} {t : Nat} {key : PostKey}

theorem SamePost.refl (p : ForumPost) : SamePost p p := rfl

theorem SamePost.trans {p q r : ForumPost} (hpq : SamePost p q) (hqr : SamePost q r) :
    SamePost p r := by
  rw [SamePost] at hpq hqr ⊢
  rw [hqr, hpq]

variable {made : List (Nat × ForumResult)}

theorem mem_of_lookup {r : ForumResult} (h : made.lookup t = some r) : (t, r) ∈ made := by
  obtain ⟨before, behind, rfl, -⟩ := List.lookup_eq_some_iff.mp h
  exact List.mem_append_right before List.mem_cons_self

/-- Who has made nothing has added no comment. -/
theorem commentBy_of_fresh (h : ∀ m ∈ made, m.1 ≠ t) (key : PostKey) :
    commentBy made key t = none := by
  have hnone : made.lookup t = none := by
    rw [List.lookup_eq_none_iff]
    intro m hm
    exact bne_iff_ne.mpr (h m hm).symm
  rw [commentBy, hnone]

theorem commentBy_cons_ne {u : Nat} (hne : u ≠ t) (r : ForumResult) (key : PostKey) :
    commentBy ((t, r) :: made) key u = commentBy made key u := by
  rw [commentBy, List.lookup_cons, beq_false_of_ne hne, commentBy]

theorem commentBy_cons_comment (comment : ForumComment) (key : PostKey) :
    commentBy ((t, .comment comment) :: made) key t =
      if commentKey comment = key then some comment else none := by
  rw [commentBy, List.lookup_cons, beq_self_eq_true]

/-- A post that is written adds no comment. -/
theorem commentBy_cons_post (hfresh : ∀ m ∈ made, m.1 ≠ t) (post : ForumPost) (key : PostKey) :
    commentBy ((t, .post post) :: made) key = commentBy made key := by
  funext u
  by_cases hu : u = t
  · subst hu
    rw [commentBy_of_fresh hfresh, commentBy, List.lookup_cons, beq_self_eq_true]
  · exact commentBy_cons_ne hu _ key

/-- A comment that is added stands behind the others of its post. -/
theorem filterMap_commentBy_cons {earlier : List Nat} (hfresh : ∀ m ∈ made, m.1 ≠ t)
    (ht : t ∉ earlier) (comment : ForumComment) (key : PostKey) :
    (earlier ++ [t]).filterMap (commentBy ((t, .comment comment) :: made) key) =
      (earlier ++ [t]).filterMap (commentBy made key) ++
        if commentKey comment = key then [comment] else [] := by
  have hearlier : earlier.filterMap (commentBy ((t, .comment comment) :: made) key) =
      earlier.filterMap (commentBy made key) := by
    apply List.filterMap_congr
    intro u hu
    apply commentBy_cons_ne
    rintro rfl
    exact ht hu
  rw [List.filterMap_append, List.filterMap_append, hearlier, List.append_assoc]
  congr 1
  rw [List.filterMap_cons, commentBy_cons_comment, List.filterMap_cons,
    commentBy_of_fresh hfresh]
  by_cases hkey : commentKey comment = key
  · simp [hkey]
  · simp [hkey]

namespace ForumHistory

variable {threads : Threads} {f : ForumPostThread → ForumPostThread}

theorem edit_self {thread : ForumPostThread} (h : threads key = some thread) :
    edit threads key f key = some (f thread) := by
  rw [edit, Function.update_self, h, Option.map_some]

theorem edit_of_ne {other : PostKey} (h : other ≠ key) :
    edit threads key f other = threads other :=
  Function.update_of_ne h _ _

end ForumHistory

open ForumHistory

/-! ## Events -/

/-- Taking the lock. -/
theorem Consistent.acquired (hc : Consistent toLowerCase files start h) (ht : t ∉ h.lockOrder) :
    Consistent toLowerCase files start (h.after (.ran t .acquired)) := by
  have hfresh : ∀ m ∈ h.made, m.1 ≠ t := by
    rintro m hm rfl
    exact ht (hc.makers m hm)
  refine ⟨?_, fun m hm => List.mem_append_left _ (hc.makers m hm), hc.once, hc.checked, hc.sound,
    hc.absent, fun key thread hthread => ?_, hc.last, hc.same⟩
  · exact hc.order.append (List.nodup_singleton t) (by simpa using ht)
  · rw [hc.comments key thread hthread]
    simp only [ForumHistory.after, List.filterMap_append, List.filterMap_cons,
      commentBy_of_fresh hfresh, List.filterMap_nil, List.append_nil]

/-- Beginning a file. -/
theorem Consistent.began (hc : Consistent toLowerCase files start h) (b : Bool) :
    Consistent toLowerCase files start { h with writing := b } :=
  ⟨hc.order, hc.makers, hc.once, hc.checked, hc.sound, hc.absent, hc.comments, hc.last, hc.same⟩

/-- What holds of the callers when the last one to take the lock makes its record. -/
theorem Consistent.callers (hc : Consistent toLowerCase files start h) {threads : Threads}
    (hturn : Turn t threads h) {r : ForumResult} (hcheck : r.check toLowerCase = .ok ()) :
    (∀ m ∈ (t, r) :: h.made, m.1 ∈ h.lockOrder) ∧
      (((t, r) :: h.made).map Prod.fst).Nodup ∧
      ∀ m ∈ (t, r) :: h.made, m.2.check toLowerCase = .ok () := by
  refine ⟨?_, ?_, List.forall_mem_cons.mpr ⟨hcheck, hc.checked⟩⟩
  · rw [List.forall_mem_cons]
    obtain ⟨earlier, hearlier⟩ := hturn.latest
    refine ⟨?_, hc.makers⟩
    rw [hearlier]
    exact List.mem_append_right _ List.mem_cons_self
  · rw [List.map_cons, List.nodup_cons]
    refine ⟨fun hmem => ?_, hc.once⟩
    obtain ⟨m, hm, hmt⟩ := List.mem_map.mp hmem
    exact hturn.fresh m hm hmt

/-- A new post. -/
theorem Consistent.created (hc : Consistent toLowerCase files start h) {threads : Threads}
    (hturn : Turn t threads h) {post : ForumPost} (hnew : threads (postKey post) = none)
    (hforum : files.checkForum post.channelId = .ok ())
    (hvalid : assertValidForumPost toLowerCase post = .ok ()) :
    Consistent toLowerCase files start (h.after (.ran t (.synced post))) := by
  obtain rfl := hturn.threads
  obtain ⟨hmakers, honce, hchecked⟩ := hc.callers (r := .post post) hturn hvalid
  obtain ⟨hstart, hposts, hcomments⟩ := hc.absent _ hnew
  refine ⟨hc.order, hmakers, honce, hchecked, fun key thread hthread => ?_, fun key habsent => ?_,
    fun key thread hthread => ?_, fun key thread hthread => ?_, fun key thread hthread => ?_⟩
  all_goals simp only [ForumHistory.after] at *
  · by_cases hkey : key = postKey post
    · subst hkey
      rw [Function.update_self] at hthread
      obtain rfl := Option.some.inj hthread
      exact ⟨rfl, hforum, hvalid, fun _ hmem => (nomatch hmem), rfl⟩
    · rw [Function.update_of_ne hkey] at hthread
      exact hc.sound key thread hthread
  · by_cases hkey : key = postKey post
    · subst hkey
      rw [Function.update_self] at habsent
      cases habsent
    · rw [Function.update_of_ne hkey] at habsent
      obtain ⟨hnone, hposts', hcomments'⟩ := hc.absent key habsent
      refine ⟨hnone, ?_, ?_⟩
      · rw [List.forall_mem_cons]
        refine ⟨fun other hother => ?_, hposts'⟩
        obtain rfl := ForumResult.post.inj hother
        exact Ne.symm hkey
      · rw [List.forall_mem_cons]
        exact ⟨fun _ hother => (nomatch hother), hcomments'⟩
  · rw [commentBy_cons_post hturn.fresh]
    by_cases hkey : key = postKey post
    · subst hkey
      rw [Function.update_self] at hthread
      obtain rfl := Option.some.inj hthread
      have hnone : h.lockOrder.filterMap (commentBy h.made (postKey post)) = [] := by
        rw [List.filterMap_eq_nil_iff]
        intro u _
        unfold commentBy
        split
        · rename_i comment hlookup
          rw [if_neg (hcomments _ (mem_of_lookup hlookup) comment rfl)]
        · rfl
      rw [hnone, commentsOf, hstart]
      rfl
    · rw [Function.update_of_ne hkey] at hthread
      exact hc.comments key thread hthread
  · by_cases hkey : key = postKey post
    · subst hkey
      rw [Function.update_self] at hthread
      obtain rfl := Option.some.inj hthread
      rw [lastWrite, if_pos rfl]
      rfl
    · rw [Function.update_of_ne hkey] at hthread
      rw [lastWrite, if_neg (Ne.symm hkey)]
      exact hc.last key thread hthread
  · by_cases hkey : key = postKey post
    · subst hkey
      rw [Function.update_self] at hthread
      obtain rfl := Option.some.inj hthread
      refine ⟨?_, fun first hfirst => (nomatch hstart.symm.trans hfirst)⟩
      rw [List.forall_mem_cons]
      refine ⟨fun other hother _ => ?_, fun m hm other hother hkey => ?_⟩
      · obtain rfl := ForumResult.post.inj hother
        exact SamePost.refl post
      · exact (hposts m hm other hother hkey).elim
    · rw [Function.update_of_ne hkey] at hthread
      obtain ⟨hsame, hfirst⟩ := hc.same key thread hthread
      refine ⟨?_, hfirst⟩
      rw [List.forall_mem_cons]
      refine ⟨fun other hother hother' => ?_, hsame⟩
      obtain rfl := ForumResult.post.inj hother
      exact (hkey hother'.symm).elim

/-- Another status of a post. -/
theorem Consistent.updated (hc : Consistent toLowerCase files start h) {threads : Threads}
    (hturn : Turn t threads h) {post : ForumPost} {thread : ForumPostThread}
    (hthere : threads (postKey post) = some thread) (hsame : SamePost thread.post post)
    (hvalid : assertValidForumPost toLowerCase post = .ok ()) :
    Consistent toLowerCase files start (h.after (.ran t (.wrotePost post))) := by
  obtain rfl := hturn.threads
  obtain ⟨hmakers, honce, hchecked⟩ := hc.callers (r := .post post) hturn hvalid
  have hself := edit_self (f := fun thread => { thread with post := post }) hthere
  refine ⟨hc.order, hmakers, honce, hchecked, fun key other hother => ?_, fun key habsent => ?_,
    fun key other hother => ?_, fun key other hother => ?_, fun key other hother => ?_⟩
  all_goals
    simp only [ForumHistory.after] at *
    by_cases hkey : key = postKey post
  · subst hkey
    obtain rfl := Option.some.inj (hself.symm.trans hother)
    obtain ⟨-, hforum, -, hcomments, hnumbered⟩ := hc.sound _ thread hthere
    exact ⟨rfl, hforum, hvalid, hcomments, hnumbered⟩
  · rw [edit_of_ne hkey] at hother
    exact hc.sound key other hother
  · subst hkey
    rw [hself] at habsent
    cases habsent
  · rw [edit_of_ne hkey] at habsent
    obtain ⟨hnone, hposts, hcomments⟩ := hc.absent key habsent
    refine ⟨hnone, ?_, ?_⟩
    · rw [List.forall_mem_cons]
      refine ⟨fun written hwritten => ?_, hposts⟩
      obtain rfl := ForumResult.post.inj hwritten
      exact Ne.symm hkey
    · rw [List.forall_mem_cons]
      exact ⟨fun _ hwritten => (nomatch hwritten), hcomments⟩
  · subst hkey
    obtain rfl := Option.some.inj (hself.symm.trans hother)
    rw [commentBy_cons_post hturn.fresh]
    exact hc.comments _ thread hthere
  · rw [edit_of_ne hkey] at hother
    rw [commentBy_cons_post hturn.fresh]
    exact hc.comments key other hother
  · subst hkey
    obtain rfl := Option.some.inj (hself.symm.trans hother)
    rw [lastWrite, if_pos rfl]
    rfl
  · rw [edit_of_ne hkey] at hother
    rw [lastWrite, if_neg (Ne.symm hkey)]
    exact hc.last key other hother
  · subst hkey
    obtain rfl := Option.some.inj (hself.symm.trans hother)
    obtain ⟨hmade, hfirst⟩ := hc.same _ thread hthere
    refine ⟨?_, fun first h => (hfirst first h).trans hsame⟩
    rw [List.forall_mem_cons]
    refine ⟨fun written hwritten _ => ?_, fun m hm written hwritten hkey => ?_⟩
    · obtain rfl := ForumResult.post.inj hwritten
      exact SamePost.refl post
    · exact (hmade m hm written hwritten hkey).trans hsame
  · rw [edit_of_ne hkey] at hother
    obtain ⟨hmade, hfirst⟩ := hc.same key other hother
    refine ⟨?_, hfirst⟩
    rw [List.forall_mem_cons]
    refine ⟨fun written hwritten hwritten' => ?_, hmade⟩
    obtain rfl := ForumResult.post.inj hwritten
    exact (hkey hwritten'.symm).elim

/-- One comment more. -/
theorem Consistent.added (hc : Consistent toLowerCase files start h) {threads : Threads}
    (hturn : Turn t threads h) {comment : ForumComment} {thread : ForumPostThread}
    (hthere : threads (commentKey comment) = some thread)
    (hid : comment.id = "c" ++ toString (thread.comments.length + 1))
    (hvalid : assertValidForumComment comment = .ok ()) :
    Consistent toLowerCase files start (h.after (.ran t (.appended comment))) := by
  obtain rfl := hturn.threads
  obtain ⟨hmakers, honce, hchecked⟩ := hc.callers (r := .comment comment) hturn hvalid
  obtain ⟨earlier, hearlier⟩ := hturn.latest
  have ht : t ∉ earlier := by
    have horder := hc.order
    rw [hearlier, List.nodup_append] at horder
    exact fun hmem => horder.2.2 t hmem t List.mem_cons_self rfl
  have horder := fun key => filterMap_commentBy_cons hturn.fresh ht comment key
  rw [← hearlier] at horder
  have hself := edit_self (f := fun thread =>
    { thread with comments := thread.comments ++ [comment] }) hthere
  refine ⟨hc.order, hmakers, honce, hchecked, fun key other hother => ?_, fun key habsent => ?_,
    fun key other hother => ?_, fun key other hother => ?_, fun key other hother => ?_⟩
  all_goals
    simp only [ForumHistory.after] at *
    by_cases hkey : key = commentKey comment
  · subst hkey
    obtain rfl := Option.some.inj (hself.symm.trans hother)
    obtain ⟨hplace, hforum, hpost, hcomments, hnumbered⟩ := hc.sound _ thread hthere
    refine ⟨hplace, hforum, hpost, ?_, ?_⟩
    · rw [List.forall_mem_append]
      refine ⟨hcomments, fun other hmem => ?_⟩
      obtain rfl := List.mem_singleton.mp hmem
      exact ⟨rfl, hvalid⟩
    · rw [List.map_append, hnumbered, List.length_append, List.map_singleton, hid,
        List.length_singleton, List.range_succ, List.map_append, List.map_singleton]
  · rw [edit_of_ne hkey] at hother
    exact hc.sound key other hother
  · subst hkey
    rw [hself] at habsent
    cases habsent
  · rw [edit_of_ne hkey] at habsent
    obtain ⟨hnone, hposts, hcomments⟩ := hc.absent key habsent
    refine ⟨hnone, ?_, ?_⟩
    · rw [List.forall_mem_cons]
      exact ⟨fun _ hmade => (nomatch hmade), hposts⟩
    · rw [List.forall_mem_cons]
      refine ⟨fun made hmade => ?_, hcomments⟩
      obtain rfl := ForumResult.comment.inj hmade
      exact Ne.symm hkey
  · subst hkey
    obtain rfl := Option.some.inj (hself.symm.trans hother)
    rw [horder, if_pos rfl, hc.comments _ thread hthere, List.append_assoc]
  · rw [edit_of_ne hkey] at hother
    rw [horder, if_neg (Ne.symm hkey), List.append_nil]
    exact hc.comments key other hother
  · subst hkey
    obtain rfl := Option.some.inj (hself.symm.trans hother)
    exact hc.last _ thread hthere
  · rw [edit_of_ne hkey] at hother
    exact hc.last key other hother
  · subst hkey
    obtain rfl := Option.some.inj (hself.symm.trans hother)
    obtain ⟨hmade, hfirst⟩ := hc.same _ thread hthere
    refine ⟨?_, hfirst⟩
    rw [List.forall_mem_cons]
    exact ⟨fun _ hwritten => (nomatch hwritten), hmade⟩
  · rw [edit_of_ne hkey] at hother
    obtain ⟨hmade, hfirst⟩ := hc.same key other hother
    refine ⟨?_, hfirst⟩
    rw [List.forall_mem_cons]
    exact ⟨fun _ hwritten => (nomatch hwritten), hmade⟩

end Steps

end AgentGather.Storage.Boards
