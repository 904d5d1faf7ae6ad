import AgentGather.Storage.ForumHistory
import AgentGather.Storage.ForumPosts

/-!
# Forum threads over any order of steps

Posts are created and changed, and comments appended, under the writer lock, each file byte by
byte.  While no file is being written, the files are those of the threads that the history has
made; from that follows what the readers read.
-/

namespace AgentGather.Storage.Boards

open AgentGather.Library AgentGather.Protocol ForumHistory

inductive ForumCall where
  | createForumPost (channelId : String) (input : CreateForumPostInput) (randomId : String)
      (now : Nat)
  | addForumComment (channelId postId author body : String) (now : Nat)
  | setForumPostStatus (channelId postId status : String) (now : Nat)

def ForumCall.prog (toLowerCase : String → String) (t : Nat) : ForumCall → BoardProg ForumResult
  | createForumPost channelId input randomId now =>
      (Boards.createForumPost toLowerCase t channelId input randomId now).bind fun post =>
        .ret (.post post)
  | addForumComment channelId postId author body now =>
      (Boards.addForumComment toLowerCase t channelId postId author body now).bind fun comment =>
        .ret (.comment comment)
  | setForumPostStatus channelId postId status now =>
      (Boards.setForumPostStatus toLowerCase t channelId postId status now).bind fun post =>
        .ret (.post post)

/-- Calls about to be made on a room. -/
def forumCalls (toLowerCase : String → String) (files : BoardFiles) (calls : List ForumCall) :
    Config BoardWorld BoardStep Failure ForumResult where
  snap := ⟨⟨files, none⟩, []⟩
  threads := calls.mapIdx fun t call => some (call.prog toLowerCase t)

/-- Callers whose steps all succeed. -/
abbrev forumSystem : System BoardWorld BoardStep Failure := .faultless BoardWorld BoardStep Failure

/-! ## Files and threads -/

def commentBytes (comments : List ForumComment) : List Nat :=
  JsonLines.bytes (comments.map ForumComment.toJson)

/-- The files of a post are those of its thread; where there is none there are no files. -/
structure KeepsThread (thread : Option ForumPostThread) (key : PostKey) (files : BoardFiles) :
    Prop where
  post : files.postFile key = thread.map fun thread => JsonFile.bytes thread.post.toJson
  comments : (files.commentsFile key).getD [] =
    commentBytes ((thread.map ForumPostThread.comments).getD [])

/-- The files are those of the threads. -/
def Represents (threads : Threads) (files : BoardFiles) : Prop :=
  ∀ key, KeepsThread (threads key) key files

/-- The files are those of the threads, but for one post. -/
def RepresentsBut (key : PostKey) (threads : Threads) (files : BoardFiles) : Prop :=
  ∀ other, other ≠ key → KeepsThread (threads other) other files

section Files

variable {toLowerCase : String → String} {files : BoardFiles} {threads : Threads} {key : PostKey}
  {thread : ForumPostThread}

theorem KeepsThread.readPost (h : KeepsThread (some thread) key files) :
    files.readPost key = .ok thread.post := by
  rw [BoardFiles.readPost, h.post]
  simp only [Option.map_some, JsonFile.read_bytes thread.post.valid_toJson, Option.bind_some,
    ForumPost.ofJson_toJson]

/-- A post that is read is the one of a thread. -/
theorem Represents.exists_of_readPost (h : Represents threads files) {post : ForumPost}
    (hread : files.readPost key = .ok post) :
    ∃ thread, threads key = some thread ∧ thread.post = post := by
  have hkey := h key
  cases hthread : threads key with
  | none =>
      rw [hthread] at hkey
      rw [BoardFiles.readPost, hkey.post] at hread
      cases hread
  | some thread =>
      rw [hthread] at hkey
      exact ⟨thread, rfl, Except.ok.inj (hkey.readPost.symm.trans hread)⟩

theorem parseComment_print {comment : ForumComment}
    (h : assertValidForumComment comment = .ok ()) :
    parseComment (Json.print comment.toJson) = .ok comment := by
  rw [parseComment, Json.parse_print _ comment.valid_toJson, Option.bind_some,
    ForumComment.ofJson_toJson]
  simp only [h]
  rfl

/-- Comments that pass the check read back as they were written. -/
theorem parseComments_bytes {comments : List ForumComment}
    (h : ∀ comment ∈ comments, assertValidForumComment comment = .ok ()) :
    parseComments (commentBytes comments) = .ok comments := by
  have hvalid : ∀ value ∈ comments.map ForumComment.toJson, value.Valid := by
    intro value hvalue
    obtain ⟨comment, -, rfl⟩ := List.mem_map.mp hvalue
    exact comment.valid_toJson
  have hlines : JsonLines.lines (Utf8.decode (commentBytes comments)) =
      (comments.map ForumComment.toJson).map Json.print := by
    have hwhole := JsonLines.lines_values hvalid []
    have hnone : JsonLines.lines [] = [] := rfl
    rw [List.append_nil, hnone, List.append_nil] at hwhole
    rw [commentBytes, JsonLines.bytes, Utf8.decode_encode, hwhole]
  rw [parseComments, hlines]
  clear hlines hvalid
  induction comments with
  | nil => rfl
  | cons comment comments ih =>
      rw [List.forall_mem_cons] at h
      rw [List.map_cons, List.map_cons, List.mapM_cons, parseComment_print h.1, ih h.2]
      rfl

theorem KeepsThread.readComments (h : KeepsThread (some thread) key files)
    (hvalid : ∀ comment ∈ thread.comments, assertValidForumComment comment = .ok ()) :
    files.readComments key = .ok thread.comments := by
  have hread := parseComments_bytes hvalid
  have hcomments : (files.commentsFile key).getD [] = commentBytes thread.comments := h.comments
  rw [← hcomments] at hread
  rw [BoardFiles.readComments]
  cases hfile : files.commentsFile key with
  | none =>
      rw [hfile] at hread
      exact hread
  | some bytes =>
      rw [hfile] at hread
      exact hread

/-! ## Changes of the files -/

theorem KeepsThread.congr {thread : Option ForumPostThread} {files' : BoardFiles}
    (h : KeepsThread thread key files) (hpost : files'.postFile key = files.postFile key)
    (hcomments : files'.commentsFile key = files.commentsFile key) :
    KeepsThread thread key files' := by
  refine ⟨hpost.trans h.post, ?_⟩
  rw [hcomments]
  exact h.comments

theorem Represents.makeDirectory (h : Represents threads files) (key : PostKey) :
    Represents threads (files.makeDirectory key) :=
  fun other => (h other).congr (files.postFile_makeDirectory key other)
    (files.commentsFile_makeDirectory key other)

theorem Represents.but (h : Represents threads files) : RepresentsBut key threads files :=
  fun other _ => h other

/-- What happens in one directory does not touch the others. -/
theorem RepresentsBut.modify (h : RepresentsBut key threads files) (f : PostFiles → PostFiles) :
    RepresentsBut key threads (files.modify key f) := by
  intro other hother
  refine (h other hother).congr ?_ ?_
  · rw [BoardFiles.postFile, BoardFiles.directory_modify_ne hother, BoardFiles.postFile]
  · rw [BoardFiles.commentsFile, BoardFiles.directory_modify_ne hother, BoardFiles.commentsFile]

/-- The one post is finished. -/
theorem RepresentsBut.finish (h : RepresentsBut key threads files)
    {thread : Option ForumPostThread} (hkey : KeepsThread thread key files) :
    Represents (Function.update threads key thread) files := by
  intro other
  by_cases hother : other = key
  · subst hother
    rw [Function.update_self]
    exact hkey
  · rw [Function.update_of_ne hother]
    exact h other hother

/-- While the new post of a directory is written. -/
structure WritingPost (threads : Threads) (key : PostKey) (written : List Nat)
    (files : BoardFiles) : Prop where
  others : RepresentsBut key threads files
  directory : (files.directory key).isSome
  post : files.postFile key = some written
  comments : (files.commentsFile key).getD [] = []

/-- While a comment of a post is written. -/
structure WritingComment (threads : Threads) (key : PostKey) (thread : ForumPostThread)
    (written : List Nat) (files : BoardFiles) : Prop where
  others : RepresentsBut key threads files
  directory : (files.directory key).isSome
  post : files.postFile key = some (JsonFile.bytes thread.post.toJson)
  comments : (files.commentsFile key).getD [] = commentBytes thread.comments ++ written

theorem directory_modify_isSome {f : PostFiles → PostFiles} (h : (files.directory key).isSome) :
    ((files.modify key f).directory key).isSome := by
  rw [BoardFiles.directory_modify_self, Option.isSome_map]
  exact h

/-- A new file, where there was none. -/
theorem Represents.writingPost (h : Represents threads files)
    (hdirectory : (files.directory key).isSome) (hnone : files.postFile key = none) :
    threads key = none ∧
      WritingPost threads key [] (files.modify key (PostFiles.setPost [])) := by
  have hkey := h key
  have habsent : threads key = none := by
    cases hthread : threads key with
    | none => rfl
    | some thread =>
        rw [hthread] at hkey
        cases hnone.symm.trans hkey.post
  rw [habsent] at hkey
  obtain ⟨d, hd⟩ := Option.isSome_iff_exists.mp hdirectory
  have hcomments := hkey.comments
  refine ⟨habsent, h.but.modify _, directory_modify_isSome hdirectory, ?_, ?_⟩
  · rw [BoardFiles.postFile, BoardFiles.directory_modify_self, hd]
    rfl
  · rw [BoardFiles.commentsFile, hd] at hcomments
    rw [BoardFiles.commentsFile, BoardFiles.directory_modify_self, hd]
    exact hcomments

theorem WritingPost.add {written : List Nat} (h : WritingPost threads key written files)
    (byte : Nat) :
    WritingPost threads key (written ++ [byte])
      (files.modify key (PostFiles.addToPost byte)) := by
  obtain ⟨d, hd⟩ := Option.isSome_iff_exists.mp h.directory
  have hpost := h.post
  have hcomments := h.comments
  rw [BoardFiles.postFile, hd, Option.bind_some] at hpost
  rw [BoardFiles.commentsFile, hd] at hcomments
  refine ⟨h.others.modify _, directory_modify_isSome h.directory, ?_, ?_⟩
  · rw [BoardFiles.postFile, BoardFiles.directory_modify_self, hd, Option.map_some,
      Option.bind_some, PostFiles.addToPost, hpost, Option.getD_some]
  · rw [BoardFiles.commentsFile, BoardFiles.directory_modify_self, hd]
    exact hcomments

/-- A post that is written to the end makes a thread. -/
theorem WritingPost.finish {post : ForumPost}
    (h : WritingPost threads key (JsonFile.bytes post.toJson) files) :
    Represents (Function.update threads key (some ⟨post, []⟩)) files :=
  h.others.finish ⟨h.post, h.comments⟩

theorem Represents.writingComment (h : Represents threads files)
    (hdirectory : (files.directory key).isSome) (hthread : threads key = some thread) :
    WritingComment threads key thread [] files := by
  have hkey := h key
  rw [hthread] at hkey
  refine ⟨h.but, hdirectory, hkey.post, ?_⟩
  rw [List.append_nil]
  exact hkey.comments

theorem WritingComment.add {written : List Nat}
    (h : WritingComment threads key thread written files) (byte : Nat) :
    WritingComment threads key thread (written ++ [byte])
      (files.modify key (PostFiles.addToComments byte)) := by
  obtain ⟨d, hd⟩ := Option.isSome_iff_exists.mp h.directory
  have hpost := h.post
  have hcomments := h.comments
  rw [BoardFiles.postFile, hd] at hpost
  rw [BoardFiles.commentsFile, hd, Option.bind_some] at hcomments
  refine ⟨h.others.modify _, directory_modify_isSome h.directory, ?_, ?_⟩
  · rw [BoardFiles.postFile, BoardFiles.directory_modify_self, hd]
    exact hpost
  · rw [BoardFiles.commentsFile, BoardFiles.directory_modify_self, hd, Option.map_some,
      Option.bind_some, PostFiles.addToComments, Option.getD_some, hcomments, List.append_assoc]

/-- A comment that is written to the end is the last of its thread. -/
theorem WritingComment.finish {comment : ForumComment} (hthread : threads key = some thread)
    (h : WritingComment threads key thread (commentBytes [comment]) files) :
    Represents (edit threads key fun thread =>
      { thread with comments := thread.comments ++ [comment] }) files := by
  rw [edit, hthread]
  refine h.others.finish ⟨h.post, ?_⟩
  rw [h.comments, commentBytes, commentBytes, ← JsonLines.bytes_append, ← List.map_append]
  rfl

/-- A post that is replaced. -/
theorem Represents.setPost (h : Represents threads files) (hthread : threads key = some thread)
    (post : ForumPost) :
    Represents (edit threads key fun thread => { thread with post := post })
      (files.modify key (PostFiles.setPost (JsonFile.bytes post.toJson))) := by
  have hkey := h key
  rw [hthread] at hkey
  have hpost := hkey.post
  have hcomments : (files.commentsFile key).getD [] = commentBytes thread.comments :=
    hkey.comments
  rw [edit, hthread]
  refine (h.but.modify _).finish ⟨?_, ?_⟩
  · rw [BoardFiles.postFile, BoardFiles.directory_modify_self]
    cases hd : files.directory key with
    | none =>
        rw [BoardFiles.postFile, hd] at hpost
        cases hpost
    | some d => rfl
  · rw [BoardFiles.commentsFile, BoardFiles.directory_modify_self]
    rw [BoardFiles.commentsFile] at hcomments
    cases hd : files.directory key with
    | none =>
        rw [hd] at hcomments
        exact hcomments
    | some d =>
        rw [hd] at hcomments
        exact hcomments

end Files

/-! ## The invariant -/

/-- The boardroom is left alone, the history is consistent, and while no file is being written
the files are those of its threads. -/
structure ForumInv (toLowerCase : String → String) (files : BoardFiles) (start : Threads)
    (x : Snapshot BoardWorld BoardStep) : Prop where
  room : x.world.files.room = files.room
  boardroom : x.world.files.boardroom = files.boardroom
  consistent : Consistent toLowerCase files start (history start x.trace)
  represented : (history start x.trace).writing = false →
    Represents (history start x.trace).threads x.world.files
  free : x.world.lock = none → (history start x.trace).writing = false

/-- Caller `t` holds the lock, of the history it knows `C`, and of the files `p`. -/
abbrev AtLock (start : Threads) (t : Nat) (C : ForumHistory → Prop) (p : BoardFiles → Prop) :
    Snapshot BoardWorld BoardStep → Prop :=
  Holding t (fun es => C (history start es)) p

/-- It is its turn, and no file is being written. -/
def Resting (t : Nat) (threads : Threads) (h : ForumHistory) : Prop :=
  Turn t threads h ∧ h.writing = false

/-- It has made its record. -/
def Made (t : Nat) (r : ForumResult) (h : ForumHistory) : Prop :=
  (t, r) ∈ h.made ∧ h.writing = false

/-- It has made none. -/
def Idle (t : Nat) (h : ForumHistory) : Prop :=
  (∀ m ∈ h.made, m.1 ≠ t) ∧ h.writing = false

theorem Resting.idle {t : Nat} {threads : Threads} {h : ForumHistory}
    (hrest : Resting t threads h) : Idle t h := ⟨hrest.1.fresh, hrest.2⟩

section Safety

variable {toLowerCase : String → String} {files : BoardFiles} {start threads : Threads} {t : Nat}
  {key : PostKey} {α : Type} {C C' : ForumHistory → Prop} {p p' : BoardFiles → Prop}
  {E : Failure → Snapshot BoardWorld BoardStep → Prop} {x : Snapshot BoardWorld BoardStep}

abbrev ForumSafe (toLowerCase : String → String) (files : BoardFiles) (start : Threads) (t : Nat)
    (Q : α → Snapshot BoardWorld BoardStep → Prop)
    (E : Failure → Snapshot BoardWorld BoardStep → Prop) (p : BoardProg α)
    (P : Snapshot BoardWorld BoardStep → Prop) : Prop :=
  BoardSafe forumSystem (ForumInv toLowerCase files start) t Q E p P

theorem forumInv_quiet : KeptQuietly (ForumInv toLowerCase files start) := by
  intro x e w hx he hfiles hlock
  have hsame := history_quiet start x.trace he
  refine ⟨?_, ?_, ?_, ?_, ?_⟩
  all_goals simp only [Snapshot.record_world, Snapshot.record_trace, hfiles, hlock, hsame]
  · exact hx.room
  · exact hx.boardroom
  · exact hx.consistent
  · exact hx.represented
  · exact hx.free

theorem history_enduring (C : ForumHistory → Prop) :
    Enduring fun es => C (history start es) := by
  intro e es he h
  rw [history_quiet start es he]
  exact h

theorem faultless_faults (l : BoardStep) (e : Failure) : forumSystem.faults l e = false := rfl

/-- The threads of whose turn it is are those of the files. -/
theorem ForumInv.of_resting (hx : ForumInv toLowerCase files start x)
    (h : AtLock start t (Resting t threads) p x) : Represents threads x.world.files := by
  have hfiles := hx.represented h.past.2
  rw [h.past.1.threads] at hfiles
  exact hfiles

/-- A step of the lock holder keeps the invariant if it keeps the history consistent, and where
it ends the writing, leaves the files of its threads. -/
theorem ForumInv.step (hx : ForumInv toLowerCase files start x) (hlock : x.world.lock = some t)
    {l : BoardStep} {f : BoardFiles} (hroom : f.room = x.world.files.room)
    (hboardroom : f.boardroom = x.world.files.boardroom)
    (hconsistent : Consistent toLowerCase files start ((history start x.trace).after (.ran t l)))
    (hrepresents : ((history start x.trace).after (.ran t l)).writing = false →
      Represents ((history start x.trace).after (.ran t l)).threads f) :
    ForumInv toLowerCase files start (x.record (.ran t l) { x.world with files := f }) := by
  refine ⟨hroom.trans hx.room, hboardroom.trans hx.boardroom, hconsistent, hrepresents, ?_⟩
  intro hnone
  exact absurd (hlock.symm.trans hnone) (Option.some_ne_none t)

/-! ## Steps that the history does not see -/

/-- The step neither begins nor ends a record. -/
def IsMute (l : BoardStep) : Prop := ∀ t h, ForumHistory.after h (.ran t l) = h

theorem isMute_directory (key : PostKey) :
    IsMute (.madeDirectory key) ∧ IsMute (.chmodDirectory key) :=
  ⟨fun _ _ => rfl, fun _ _ => rfl⟩

theorem mute_safe {label : BoardStep} {effect : BoardFiles → BoardFiles} (hmute : IsMute label)
    (hroom : ∀ f, (effect f).room = f.room) (hboardroom : ∀ f, (effect f).boardroom = f.boardroom)
    (hrepresents : ∀ threads f, Represents threads f → Represents threads (effect f))
    (hfiles : ∀ f, p f → p' (effect f)) :
    ForumSafe toLowerCase files start t (fun _ => AtLock start t C p') E (change label effect)
      (AtLock start t C p) := by
  refine change_always faultless_faults (history_enduring C) fun x hx h => ?_
  have hsame : history start (.ran t label :: x.trace) = history start x.trace := hmute t _
  refine ⟨hx.step h.lock (hroom _) (hboardroom _) ?_ fun hwriting => ?_, ?_, hfiles _ h.files⟩
  · rw [hmute]
    exact hx.consistent
  · rw [hmute] at hwriting ⊢
    exact hrepresents _ _ (hx.represented hwriting)
  · rw [hsame]
    exact h.past

theorem mute_id_safe {label : BoardStep} (hmute : IsMute label) :
    ForumSafe toLowerCase files start t (fun _ => AtLock start t C p) E (change label id)
      (AtLock start t C p) :=
  mute_safe hmute (fun _ => rfl) (fun _ => rfl) (fun _ _ h => h) fun _ h => h

/-- The directory is there. -/
def HasDirectory (key : PostKey) (files : BoardFiles) : Prop := (files.directory key).isSome

theorem ensureSecureDir_safe (key : PostKey) :
    ForumSafe toLowerCase files start t (fun _ => AtLock start t C (HasDirectory key)) E
      (ensureSecureDir key) (AtLock start t C p) := by
  obtain ⟨hmade, hchmod⟩ := isMute_directory key
  refine Contract.Safe.bind (mute_safe hmade (fun f => f.room_makeDirectory key)
    (fun f => f.boardroom_makeDirectory key) (fun _ _ h => h.makeDirectory key) fun f _ => ?_)
    fun _ => mute_id_safe hchmod
  rw [HasDirectory, BoardFiles.directory_makeDirectory_self]
  rfl

/-! ## Writing -/

/-- The bytes of a file, one after the other. -/
theorem writeBytes_safe {add : Nat → PostFiles → PostFiles} {q : List Nat → BoardFiles → Prop}
    (hadd : ∀ written f byte, q written f → q (written ++ [byte]) (f.modify key (add byte)))
    (rest written : List Nat) :
    ForumSafe toLowerCase files start t (fun _ => AtLock start t (Turn t threads) (q (written ++ rest)))
      E (writeBytes key add rest) (AtLock start t (Turn t threads) (q written)) := by
  induction rest generalizing written with
  | nil =>
      rw [List.append_nil]
      exact .ret
  | cons byte rest ih =>
      refine Contract.Safe.bind (R := fun _ =>
        AtLock start t (Turn t threads) (q (written ++ [byte]))) ?_ fun _ => ?_
      · refine change_always faultless_faults (history_enduring _) fun x hx h => ?_
        have hinv := hx.step (l := .wroteByte key) h.lock (BoardFiles.room_modify key _ (add byte))
          (BoardFiles.boardroom_modify key _ (add byte)) (hx.consistent.began true)
          fun hwriting => (nomatch hwriting)
        refine ⟨hinv, ?_, hadd _ _ byte h.files⟩
        exact ⟨h.past.latest, h.past.fresh, h.past.threads⟩
      · have hrest := ih (written ++ [byte])
        rwa [List.append_assoc] at hrest

/-- The exclusive open: there was no file, and now there is an empty one; or it fails. -/
theorem openNew_safe :
    ForumSafe toLowerCase files start t
      (fun _ x => threads key = none ∧
        AtLock start t (Turn t threads) (WritingPost threads key []) x)
      (fun _ => AtLock start t (Resting t threads) fun _ => True) (openNew key)
      (AtLock start t (Resting t threads) (HasDirectory key)) := by
  refine .action (holding_stable (history_enduring _)) (fun x hx h _ _ => ?_)
    (fun x _ hx h _ _ hok => ?_) (fun x _ hx h _ _ herr => ?_) fun x e _ _ he _ => nomatch he
  · apply keeps_of_holder h.lock
    cases hpost : (x.world.files.postFile key).isSome with
    | true =>
        exact hx.step (l := .existed key) h.lock rfl rfl hx.consistent hx.represented
    | false =>
        exact hx.step (l := .opened key) h.lock (BoardFiles.room_modify key _ _)
          (BoardFiles.boardroom_modify key _ _) (hx.consistent.began true)
          fun hwriting => (nomatch hwriting)
  · cases hpost : (x.world.files.postFile key).isSome with
    | true =>
        simp only [hpost, if_true] at hok
        cases hok
    | false =>
        simp only [Bool.false_eq_true, if_false]
        have hnone := Option.not_isSome_iff_eq_none.mp (Bool.not_eq_true _ ▸ hpost)
        obtain ⟨habsent, hwriting⟩ := (hx.of_resting h).writingPost h.files hnone
        refine ⟨habsent, h.lock, ?_, hwriting⟩
        exact ⟨h.past.1.latest, h.past.1.fresh, h.past.1.threads⟩
  · cases hpost : (x.world.files.postFile key).isSome with
    | true => exact ⟨h.lock, h.past, trivial⟩
    | false =>
        simp only [hpost, Bool.false_eq_true, if_false] at herr
        cases herr

/-- A new file: it is finished with the record of its post, or it was there. -/
theorem createSecureFile_safe {post : ForumPost} (hkey : postKey post = key)
    (hforum : files.checkForum post.channelId = .ok ())
    (hvalid : assertValidForumPost toLowerCase post = .ok ()) :
    ForumSafe toLowerCase files start t
      (fun _ => AtLock start t (Made t (.post post)) fun _ => True)
      (fun _ => AtLock start t (Idle t) fun _ => True) (createSecureFile key post)
      (AtLock start t (Resting t threads) (HasDirectory key)) := by
  refine Contract.Safe.bind (ensureSecureDir_safe key) fun _ => ?_
  refine Contract.Safe.bind (openNew_safe.conseq (fun _ _ h => h) (fun _ _ _ h => h)
    fun _ _ _ h => ⟨h.lock, h.past.idle, h.files⟩) fun _ => Contract.Safe.of_pure fun habsent => ?_
  refine Contract.Safe.bind (R := fun _ =>
    AtLock start t (Made t (.post post)) fun _ => True) ?_ fun _ => mute_id_safe fun _ _ => rfl
  refine Contract.Safe.finallyDo (F := fun _ _ => False) ?_
    (fun _ => mute_id_safe fun _ _ => rfl) fun _ => .vacuous _
  refine Contract.Safe.bind (writeBytes_safe (fun _ _ byte h => h.add byte) _ []) fun _ => ?_
  refine change_always faultless_faults (history_enduring _) fun x hx h => ?_
  subst hkey
  have hnew : (history start x.trace).threads (postKey post) = none := by
    rw [h.past.threads]
    exact habsent
  have hfinished := h.files.finish
  rw [← h.past.threads] at hfinished
  exact ⟨hx.step (l := .synced post) h.lock rfl rfl
    (hx.consistent.created h.past habsent hforum hvalid) fun _ => hfinished,
    ⟨List.mem_cons_self, rfl⟩, trivial⟩

/-- A post is replaced. -/
theorem writeJson_safe {post : ForumPost} {thread : ForumPostThread} (hkey : postKey post = key)
    (hthread : threads key = some thread) (hsame : SamePost thread.post post)
    (hvalid : assertValidForumPost toLowerCase post = .ok ()) :
    ForumSafe toLowerCase files start t
      (fun _ => AtLock start t (Made t (.post post)) fun _ => True) E (writeJson key post)
      (AtLock start t (Resting t threads) p) := by
  refine Contract.Safe.bind (ensureSecureDir_safe key) fun _ => ?_
  refine change_always faultless_faults (history_enduring _) fun x hx h => ?_
  subst hkey
  have hwritten := (hx.of_resting h).setPost hthread post
  rw [← h.past.1.threads] at hwritten
  exact ⟨hx.step (l := .wrotePost post) h.lock (BoardFiles.room_modify _ _ _)
    (BoardFiles.boardroom_modify _ _ _) (hx.consistent.updated h.past.1 hthread hsame hvalid)
    fun _ => hwritten, ⟨List.mem_cons_self, h.past.2⟩, trivial⟩

/-- A comment is appended. -/
theorem appendSecureFile_safe {comment : ForumComment} {thread : ForumPostThread}
    (hkey : commentKey comment = key) (hthread : threads key = some thread)
    (hid : comment.id = "c" ++ toString (thread.comments.length + 1))
    (hvalid : assertValidForumComment comment = .ok ()) :
    ForumSafe toLowerCase files start t
      (fun _ => AtLock start t (Made t (.comment comment)) fun _ => True) E
      (appendSecureFile key comment) (AtLock start t (Resting t threads) p) := by
  refine Contract.Safe.bind (ensureSecureDir_safe key) fun _ => ?_
  refine Contract.Safe.bind ((writeBytes_safe (q := WritingComment threads key thread)
    (fun _ _ byte h => h.add byte) (commentBytes [comment]) []).pre fun x hx h =>
      ⟨h.lock, h.past.1, (hx.of_resting h).writingComment h.files hthread⟩) fun _ => ?_
  refine Contract.Safe.bind (R := fun _ =>
    AtLock start t (Made t (.comment comment)) fun _ => True) ?_ fun _ =>
    mute_id_safe fun _ _ => rfl
  refine change_always faultless_faults (history_enduring _) fun x hx h => ?_
  subst hkey
  have hwritten := h.files.finish hthread
  rw [← h.past.threads] at hwritten
  exact ⟨hx.step (l := .appended comment) h.lock rfl rfl
    (hx.consistent.added h.past hthread hid hvalid) fun _ => hwritten,
    ⟨List.mem_cons_self, rfl⟩, trivial⟩

/-! ## Reading under the lock -/

/-- The post that is read is the one of a thread. -/
theorem readValidPost_safe (key : PostKey) :
    ForumSafe toLowerCase files start t
      (fun post x => (∃ thread, threads key = some thread ∧ thread.post = post ∧
        SoundThread toLowerCase files key thread) ∧
        AtLock start t (Resting t threads) (fun _ => True) x)
      (fun _ => AtLock start t (Idle t) fun _ => True) (readValidPost toLowerCase key)
      (AtLock start t (Resting t threads) fun _ => True) := by
  have hresting {x : Snapshot BoardWorld BoardStep} {q : BoardFiles → Prop}
      (h : AtLock start t (Resting t threads) q x) : AtLock start t (Idle t) (fun _ => True) x :=
    ⟨h.lock, h.past.idle, trivial⟩
  refine Contract.Safe.bind ((look_safe forumInv_quiet (history_enduring _) rfl _).conseq
    (fun _ _ h => h) (fun post x hx h => ?_) fun _ _ _ h => hresting h)
    (R := fun post x => (∃ thread, threads key = some thread ∧ thread.post = post ∧
        SoundThread toLowerCase files key thread) ∧
        AtLock start t (Resting t threads) (fun _ => True) x) fun post => ?_
  · obtain ⟨thread, hthread, hpost⟩ := (hx.of_resting h).exists_of_readPost h.files.2
    refine ⟨⟨thread, hthread, hpost, hx.consistent.sound key thread ?_⟩, h.lock, h.past, trivial⟩
    rw [h.past.1.threads]
    exact hthread
  · exact .bind_ofExcept (fun _ _ => .ret) fun _ _ x _ h => hresting h.2

/-- The comments that are read are those of the thread. -/
theorem readCommentsLog_safe {thread : ForumPostThread} (hthread : threads key = some thread)
    (hvalid : ∀ comment ∈ thread.comments, assertValidForumComment comment = .ok ()) :
    ForumSafe toLowerCase files start t
      (fun comments x => comments = thread.comments ∧
        AtLock start t (Resting t threads) (fun _ => True) x)
      (fun _ => AtLock start t (Idle t) fun _ => True) (readCommentsLog key)
      (AtLock start t (Resting t threads) fun _ => True) := by
  refine (look_safe forumInv_quiet (history_enduring _) rfl _).conseq (fun _ _ h => h)
    (fun comments x hx h => ⟨?_, h.lock, h.past, trivial⟩)
    fun _ _ _ h => ⟨h.lock, h.past.idle, trivial⟩
  have hkey := hx.of_resting h key
  rw [hthread] at hkey
  exact Except.ok.inj (h.files.2.symm.trans (hkey.readComments hvalid))

/-! ## The lock -/

/-- Before its turn. -/
def Waiting (start : Threads) (t : Nat) (x : Snapshot BoardWorld BoardStep) : Prop :=
  t ∉ (history start x.trace).lockOrder

/-- It has made this record. -/
def HasMade (start : Threads) (t : Nat) (r : ForumResult) (x : Snapshot BoardWorld BoardStep) :
    Prop := (t, r) ∈ (history start x.trace).made

/-- It has made no record. -/
def HasNotMade (start : Threads) (t : Nat) (x : Snapshot BoardWorld BoardStep) : Prop :=
  ∀ m ∈ (history start x.trace).made, m.1 ≠ t

theorem Waiting.hasNotMade (hx : ForumInv toLowerCase files start x)
    (h : Waiting start t x) : HasNotMade start t x := by
  rintro m hm rfl
  exact h (hx.consistent.makers m hm)

/-- The events of others leave it waiting. -/
theorem waiting_stable :
    BoardStable forumSystem (ForumInv toLowerCase files start) t (Waiting start t) := by
  intro e x w hforeign _ _ _ h
  rw [Waiting, Snapshot.record_trace, history]
  rcases e with ⟨u, l⟩ | ⟨u, l⟩ | q
  · cases l with
    | acquired =>
        rw [ForumHistory.after, List.mem_append, List.mem_singleton]
        rintro (hmem | rfl)
        · exact h hmem
        · exact hforeign rfl
    | _ => exact h
  · exact h
  · exact h

theorem made_after (h : ForumHistory) (e : Event BoardStep) :
    (h.after e).made = h.made ∨ ∃ u l r, e = .ran u l ∧ (h.after e).made = (u, r) :: h.made := by
  rcases e with ⟨u, l⟩ | ⟨u, l⟩ | q
  · cases l with
    | synced post => exact .inr ⟨u, _, _, rfl, rfl⟩
    | wrotePost post => exact .inr ⟨u, _, _, rfl, rfl⟩
    | appended comment => exact .inr ⟨u, _, _, rfl, rfl⟩
    | _ => exact .inl rfl
  · exact .inl rfl
  · exact .inl rfl

theorem hasMade_stable (r : ForumResult) :
    BoardStable forumSystem (ForumInv toLowerCase files start) t (HasMade start t r) := by
  intro e x w _ _ _ _ h
  rw [HasMade, Snapshot.record_trace, history]
  rcases made_after (history start x.trace) e with hsame | ⟨u, l, s, -, hmore⟩
  · rw [hsame]
    exact h
  · rw [hmore]
    exact List.mem_cons_of_mem _ h

theorem hasNotMade_stable :
    BoardStable forumSystem (ForumInv toLowerCase files start) t (HasNotMade start t) := by
  intro e x w hforeign _ _ _ h
  rw [HasNotMade, Snapshot.record_trace, history]
  rcases made_after (history start x.trace) e with hsame | ⟨u, l, r, rfl, hmore⟩
  · rw [hsame]
    exact h
  · rw [hmore, List.forall_mem_cons]
    exact ⟨hforeign, h⟩

/-- A section under the lock: it begins with the threads as they are, and ends with a record or
without one. -/
theorem section_safe {body : BoardProg α} (result : α → ForumResult)
    (hbody : ∀ threads, ForumSafe toLowerCase files start t
      (fun a => AtLock start t (Made t (result a)) fun _ => True)
      (fun _ => AtLock start t (Idle t) fun _ => True) body
      (AtLock start t (Resting t threads) fun _ => True)) :
    ForumSafe toLowerCase files start t (fun a => HasMade start t (result a))
      (fun _ => HasNotMade start t) (withWriterLock t body) (Waiting start t) := by
  have hmade (a : α) : Enduring fun es => Made t (result a) (history start es) :=
    history_enduring _
  have hidle : Enduring fun es => Idle t (history start es) := history_enduring _
  have hall : ForumSafe toLowerCase files start t
      (fun a => AtLock start t (Made t (result a)) fun _ => True)
      (fun _ => AtLock start t (Idle t) fun _ => True) body
      (Holding t (fun es => ∃ threads, Resting t threads (history start es)) fun _ => True) := by
    refine (Contract.Safe.of_exists hbody).pre fun x _ h => ?_
    obtain ⟨threads, hthreads⟩ := h.past
    exact ⟨threads, h.lock, hthreads, trivial⟩
  refine withWriterLock_safe forumInv_quiet waiting_stable hmade hidle (fun x hx h hfree => ?_)
    (fun x hx h => ?_) (fun a x hx h => ?_) (fun _ _ _ hfault => (nomatch hfault))
    (fun x hx h => ?_) hall
  · have hwriting := hx.free hfree
    have hfresh := h.hasNotMade hx
    exact ⟨⟨hx.room, hx.boardroom, hx.consistent.acquired h, hx.represented,
      fun hnone => (nomatch hnone)⟩, ⟨_, ⟨⟨_, rfl⟩, hfresh, rfl⟩, hwriting⟩, trivial⟩
  · have hfresh := h.hasNotMade hx
    exact hfresh
  · exact ⟨⟨hx.room, hx.boardroom, hx.consistent, hx.represented, fun _ => h.past.2⟩, h.past.1⟩
  · exact ⟨⟨hx.room, hx.boardroom, hx.consistent, hx.represented, fun _ => h.past.2⟩, h.past.1,
      h.past.1⟩

/-! ## The calls -/

/-- The boardroom does not change, so the check of a channel is one of the beginning. -/
theorem assertForumChannel_known {P : Snapshot BoardWorld BoardStep → Prop}
    (hP : BoardStable forumSystem (ForumInv toLowerCase files start) t P)
    (hown : ∀ x l, BoardStep.isQuiet l = true → P x → P (x.record (.ran t l) x.world))
    (channelId : String) :
    ForumSafe toLowerCase files start t
      (fun _ x => files.checkForum channelId = .ok () ∧ P x) (fun _ => P)
      (assertForumChannel channelId) P := by
  refine Contract.Safe.bind (R := fun boardroom x => files.loaded = .ok boardroom ∧ P x) ?_
    fun boardroom => Contract.Safe.of_pure fun hloaded => ?_
  · refine Contract.Safe.catchErr (R := fun e x => files.readBoardroom = .error e ∧ P x) ?_
      fun e => Contract.Safe.of_pure fun hmissing => ?_
    · refine (look_known (v := files.readBoardroom) forumInv_quiet faultless_faults hP rfl
        (fun x => hown x _ rfl) fun x hx => ?_).conseq (fun _ _ h => h)
        (fun boardroom _ _ h => ⟨?_, h.2⟩) fun _ _ _ h => h
      · rw [BoardFiles.readBoardroom, hx.boardroom, BoardFiles.readBoardroom]
      · rw [BoardFiles.loaded, h.1]
    · by_cases he : e = .notFound
      · subst he
        rw [if_pos rfl]
        refine (look_known (v := files.projectRoom) forumInv_quiet faultless_faults hP rfl
          (fun x => hown x _ rfl) fun x hx => ?_).conseq (fun _ _ h => h)
          (fun boardroom _ _ h => ⟨?_, h.2⟩) fun _ _ _ h => h.2
        · rw [BoardFiles.projectRoom, hx.room, BoardFiles.projectRoom]
        · rw [BoardFiles.loaded, hmissing]
          exact h.1
      · rw [if_neg he]
        exact fun x _ h => h
  · refine .ofExcept (fun _ hok x _ h => ⟨?_, h⟩) fun _ _ _ _ h => h
    rw [BoardFiles.checkForum, hloaded]
    exact hok

theorem waiting_quiet (x : Snapshot BoardWorld BoardStep) (l : BoardStep)
    (hl : l.isQuiet = true) (h : Waiting start t x) :
    Waiting start t (x.record (.ran t l) x.world) := by
  rw [Waiting, Snapshot.record_trace, history_quiet start (e := .ran t l) x.trace hl]
  exact h

theorem createForumPost_safe (channelId randomId : String) (input : CreateForumPostInput)
    (now : Nat) :
    ForumSafe toLowerCase files start t (fun post => HasMade start t (.post post))
      (fun _ => HasNotMade start t)
      (createForumPost toLowerCase t channelId input randomId now) (Waiting start t) := by
  have hrejected {x : Snapshot BoardWorld BoardStep} (hx : ForumInv toLowerCase files start x)
      (h : Waiting start t x) : HasNotMade start t x := h.hasNotMade hx
  refine .bind_ofExcept (fun _ _ => ?_) fun _ _ _ hx h => hrejected hx h
  refine .bind_ofExcept (fun _ _ => ?_) fun _ _ _ hx h => hrejected hx h
  refine .bind_ofExcept (fun _ _ => ?_) fun _ _ _ hx h => hrejected hx h
  refine .bind_ofExcept (fun _ _ => ?_) fun _ _ _ hx h => hrejected hx h
  refine Contract.Safe.bind ((assertForumChannel_known waiting_stable waiting_quiet
    channelId).conseq (fun _ _ h => h) (fun _ _ _ h => h) fun _ _ hx h => hrejected hx h)
    fun _ => Contract.Safe.of_pure fun hforum => ?_
  refine .bind_ofExcept (fun post hpost => ?_) fun _ _ _ hx h => hrejected hx h
  obtain ⟨rfl, hvalid⟩ := newForumPost_ok hpost
  refine section_safe (fun post => .post post) fun threads => ?_
  refine Contract.Safe.bind (R := fun _ =>
    AtLock start t (Made t (.post post)) fun _ => True) ?_ fun _ => .ret
  exact Contract.Safe.bind (ensureSecureDir_safe _) fun _ =>
    createSecureFile_safe rfl hforum hvalid

theorem setForumPostStatus_safe (channelId postId status : String) (now : Nat) :
    ForumSafe toLowerCase files start t (fun post => HasMade start t (.post post))
      (fun _ => HasNotMade start t)
      (setForumPostStatus toLowerCase t channelId postId status now) (Waiting start t) := by
  have hrejected {x : Snapshot BoardWorld BoardStep} (hx : ForumInv toLowerCase files start x)
      (h : Waiting start t x) : HasNotMade start t x := h.hasNotMade hx
  refine .bind_ofExcept (fun _ _ => ?_) fun _ _ _ hx h => hrejected hx h
  refine .bind_ofExcept (fun _ _ => ?_) fun _ _ _ hx h => hrejected hx h
  refine .bind_ofExcept (fun _ _ => ?_) fun _ _ _ hx h => hrejected hx h
  refine section_safe (fun post => .post post) fun threads => ?_
  refine Contract.Safe.bind (readValidPost_safe _) fun post => Contract.Safe.of_pure ?_
  rintro ⟨thread, hthread, rfl, hsound⟩
  refine .bind_ofExcept (fun _ hvalid => ?_) fun _ _ _ _ h => ⟨h.lock, h.past.idle, trivial⟩
  refine Contract.Safe.bind (R := fun _ => AtLock start t (Made t (.post
    { thread.post with status := status, updatedAt := Time.isoString now })) fun _ => True) ?_
    fun _ => .ret
  exact writeJson_safe hsound.place hthread rfl hvalid

theorem addForumComment_safe (channelId postId author body : String) (now : Nat) :
    ForumSafe toLowerCase files start t (fun comment => HasMade start t (.comment comment))
      (fun _ => HasNotMade start t)
      (addForumComment toLowerCase t channelId postId author body now) (Waiting start t) := by
  have hrejected {x : Snapshot BoardWorld BoardStep} (hx : ForumInv toLowerCase files start x)
      (h : Waiting start t x) : HasNotMade start t x := h.hasNotMade hx
  refine .bind_ofExcept (fun _ _ => ?_) fun _ _ _ hx h => hrejected hx h
  refine .bind_ofExcept (fun _ _ => ?_) fun _ _ _ hx h => hrejected hx h
  refine .bind_ofExcept (fun _ _ => ?_) fun _ _ _ hx h => hrejected hx h
  refine .bind_ofExcept (fun _ _ => ?_) fun _ _ _ hx h => hrejected hx h
  refine Contract.Safe.bind ((assertForumChannel_known waiting_stable waiting_quiet
    channelId).conseq (fun _ _ h => h) (fun _ _ _ h => h.2) fun _ _ hx h => hrejected hx h)
    fun _ => ?_
  refine section_safe (fun comment => .comment comment) fun threads => ?_
  refine Contract.Safe.bind (readValidPost_safe _) fun post => Contract.Safe.of_pure ?_
  rintro ⟨thread, hthread, rfl, hsound⟩
  refine Contract.Safe.bind (readCommentsLog_safe hthread fun comment hmem =>
    (hsound.comments comment hmem).2) fun existing => Contract.Safe.of_pure ?_
  rintro rfl
  refine .bind_ofExcept (fun comment hcomment => ?_)
    fun _ _ _ _ h => ⟨h.lock, h.past.idle, trivial⟩
  obtain ⟨_, hvalid, hcomment⟩ := exists_ok_of_bind hcomment
  obtain rfl := Except.ok.inj hcomment
  refine Contract.Safe.bind (R := fun _ => AtLock start t (Made t (.comment _)) fun _ => True) ?_
    fun _ => .ret
  exact appendSecureFile_safe rfl hthread rfl hvalid

theorem ForumCall.prog_safe (call : ForumCall) :
    ForumSafe toLowerCase files start t (HasMade start t) (fun _ => HasNotMade start t)
      (call.prog toLowerCase t) (Waiting start t) := by
  cases call with
  | createForumPost channelId input randomId now =>
      exact Contract.Safe.bind (createForumPost_safe channelId randomId input now) fun _ => .ret
  | addForumComment channelId postId author body now =>
      exact Contract.Safe.bind (addForumComment_safe channelId postId author body now)
        fun _ => .ret
  | setForumPostStatus channelId postId status now =>
      exact Contract.Safe.bind (setForumPostStatus_safe channelId postId status now)
        fun _ => .ret

end Safety

/-! ## Runs -/

/-- A forum whose files are those of threads that pass the readers' checks. -/
structure ForumAt (toLowerCase : String → String) (files : BoardFiles) (start : Threads) :
    Prop where
  represents : Represents start files
  sound : ∀ key thread, start key = some thread → SoundThread toLowerCase files key thread

/-- The post was there in the beginning, or has been created. -/
def HasPost (start : Threads) (made : List (Nat × ForumResult)) (key : PostKey) : Prop :=
  (start key).isSome ∨ ∃ m ∈ made, ∃ post, m.2 = .post post ∧ postKey post = key

/-- A thread is what the callers have made of it. -/
structure ThreadKept (start : Threads) (h : ForumHistory) (key : PostKey)
    (thread : ForumPostThread) : Prop where
  /-- Behind the comments of the beginning come those that were added, in the order in which
  their callers have taken the lock. -/
  comments : thread.comments =
    commentsOf start key ++ h.lockOrder.filterMap (commentBy h.made key)
  numbered : thread.comments.map ForumComment.id =
    (List.range thread.comments.length).map fun i => "c" ++ toString (i + 1)
  /-- The post is the one that was written last. -/
  post : (lastWrite key h.made).elim ((start key).map ForumPostThread.post)
    (fun write => some write.2) = some thread.post
  /-- All that was ever written of the post agrees with it but for the status. -/
  same : (∀ m ∈ h.made, ∀ post, m.2 = .post post → postKey post = key →
    SamePost post thread.post) ∧
    ∀ first, start key = some first → SamePost first.post thread.post

/-- What the calls have made of a forum. -/
structure ForumKept (toLowerCase : String → String) (files : BoardFiles) (start : Threads)
    (c : Config BoardWorld BoardStep Failure ForumResult) : Prop where
  /-- Between the calls every post is read, as what the callers have made of it. -/
  read : c.snap.world.lock = none → ∀ key, HasPost start (history start c.snap.trace).made key →
    ∃ thread, ((readForumPost toLowerCase key.1 key.2).runAlone c.snap.world).1 = .ok thread ∧
      ThreadKept start (history start c.snap.trace) key thread
  /-- And every forum is listed. -/
  listed : c.snap.world.lock = none → ∀ localeLE channelId,
    assertSafeSlug channelId "channel id" = .ok () → files.checkForum channelId = .ok () →
    ∃ posts, ((listForumPosts toLowerCase localeLE channelId).runAlone c.snap.world).1 = .ok posts
  /-- No record is one that the readers reject. -/
  checked : ∀ m ∈ (history start c.snap.trace).made, m.2.check toLowerCase = .ok ()
  /-- A caller makes one record, which is the one it returns. -/
  once : ((history start c.snap.trace).made.map Prod.fst).Nodup
  returned : ∀ t r, System.returned c t = some r → (t, r) ∈ (history start c.snap.trace).made
  failed : ∀ t e, System.thread c t = some (.err e) →
    ∀ m ∈ (history start c.snap.trace).made, m.1 ≠ t

section Runs

variable {toLowerCase : String → String} {files : BoardFiles} {start : Threads}
  {calls : List ForumCall} {c : Config BoardWorld BoardStep Failure ForumResult} {key : PostKey}
  {thread : ForumPostThread}

theorem thread_forumCalls {t : Nat} {p : BoardProg ForumResult}
    (h : System.thread (forumCalls toLowerCase files calls) t = some p) :
    ∃ call : ForumCall, p = call.prog toLowerCase t := by
  simp only [System.thread, forumCalls, List.getElem?_mapIdx] at h
  cases hcall : calls[t]? with
  | none => simp [hcall] at h
  | some call => exact ⟨call, by simpa [hcall] using h.symm⟩

/-- In the beginning nobody has done anything. -/
theorem ForumAt.inv (h : ForumAt toLowerCase files start) :
    ForumInv toLowerCase files start (forumCalls toLowerCase files calls).snap := by
  refine ⟨rfl, rfl, ?_, fun _ => h.represents, fun _ => rfl⟩
  refine ⟨List.nodup_nil, fun _ hm => (nomatch hm), List.nodup_nil, fun _ hm => (nomatch hm),
    h.sound, fun key hnone => ?_, fun key thread hthread => ?_, fun key thread hthread => ?_,
    fun key thread hthread => ?_⟩
  · exact ⟨hnone, fun _ hm => (nomatch hm), fun _ hm => (nomatch hm)⟩
  · have hstart : start key = some thread := hthread
    rw [commentsOf, hstart]
    exact (List.append_nil _).symm
  · have hstart : start key = some thread := hthread
    rw [hstart]
    rfl
  · refine ⟨fun _ hm => (nomatch hm), fun first hfirst => ?_⟩
    obtain rfl := Option.some.inj (hfirst.symm.trans hthread)
    exact SamePost.refl _

theorem forumCalls_ends (hstart : ForumAt toLowerCase files start)
    (h : forumSystem.Reachable (forumCalls toLowerCase files calls) c) :
    (boardContract forumSystem (ForumInv toLowerCase files start)).HoldsTo forumSystem
      (fun t => HasMade start t) (fun t _ => HasNotMade start t) c := by
  refine Contract.ends_sound ⟨hstart.inv, fun t p hp => ?_⟩ (fun _ _ hcrash => (nomatch hcrash))
    (fun _ r => hasMade_stable r) (fun _ _ => hasNotMade_stable) h
  obtain ⟨call, rfl⟩ := thread_forumCalls hp
  exact .of_safe call.prog_safe hstart.inv fun hmem => nomatch hmem

theorem Consistent.kept {h : ForumHistory} (hc : Consistent toLowerCase files start h)
    (hthread : h.threads key = some thread) : ThreadKept start h key thread :=
  ⟨hc.comments key thread hthread, (hc.sound key thread hthread).numbered,
    hc.last key thread hthread, hc.same key thread hthread⟩

theorem Consistent.exists_thread {h : ForumHistory} (hc : Consistent toLowerCase files start h)
    (hpost : HasPost start h.made key) : ∃ thread, h.threads key = some thread := by
  cases hthread : h.threads key with
  | some thread => exact ⟨thread, rfl⟩
  | none =>
      obtain ⟨hnone, hposts, -⟩ := hc.absent key hthread
      rcases hpost with hfirst | ⟨m, hm, post, hmade, hkey⟩
      · rw [hnone] at hfirst
        cases hfirst
      · exact (hposts m hm post hmade hkey).elim

/-- The ids of a valid post are slugs. -/
theorem slugs_of_valid {post : ForumPost}
    (h : assertValidForumPost toLowerCase post = .ok ()) :
    assertSafeSlug post.channelId "channel id" = .ok () ∧
      assertSafeSlug post.id "forum post id" = .ok () := by
  obtain ⟨_, -, h⟩ := exists_ok_of_bind h
  obtain ⟨_, hid, h⟩ := exists_ok_of_bind h
  obtain ⟨_, hchannel, -⟩ := exists_ok_of_bind h
  exact ⟨hchannel, hid⟩

section Reading

variable {now : BoardFiles} (hroom : now.room = files.room)
  (hboardroom : now.boardroom = files.boardroom)

/-- The files of a sound thread are read as the thread. -/
theorem SoundThread.validPost (h : SoundThread toLowerCase files key thread)
    (hkeeps : KeepsThread (some thread) key now) :
    now.validPost toLowerCase key = .ok thread.post := by
  rw [BoardFiles.validPost, hkeeps.readPost]
  exact congrArg (· >>= fun _ => Except.ok thread.post) h.valid

include hroom hboardroom in
theorem SoundThread.read (h : SoundThread toLowerCase files key thread)
    (hkeeps : KeepsThread (some thread) key now) :
    now.thread toLowerCase key.1 key.2 = .ok thread := by
  obtain ⟨hchannel, hid⟩ := slugs_of_valid h.valid
  obtain rfl := h.place
  have hforum := h.forum
  have hvalid := h.validPost hkeeps
  have hcomments := hkeeps.readComments fun comment hmem => (h.comments comment hmem).2
  rw [← checkForum_congr hroom hboardroom] at hforum
  rw [BoardFiles.thread, hforum]
  simp only [postKey] at hvalid hcomments ⊢
  rw [hchannel, hid, hvalid, hcomments]
  rfl

end Reading

/-- Every directory of a forum at rest is listed. -/
theorem Represents.exists_found {threads : Threads} {now : BoardFiles}
    (h : Represents threads now)
    (hsound : ∀ key thread, threads key = some thread →
      SoundThread toLowerCase files key thread) (channelId : String) (entries : List String) :
    ∃ posts, now.foundAll toLowerCase channelId entries = .ok posts := by
  induction entries with
  | nil => exact ⟨[], rfl⟩
  | cons postId entries ih =>
      obtain ⟨rest, hrest⟩ := ih
      have hkey := h (channelId, postId)
      rw [BoardFiles.foundAll, hrest]
      cases hthread : threads (channelId, postId) with
      | none =>
          rw [hthread] at hkey
          rw [found_of_none hkey.post]
          exact ⟨_, rfl⟩
      | some thread =>
          rw [hthread] at hkey
          have hvalid := (hsound _ thread hthread).validPost hkey
          rw [BoardFiles.found, hvalid]
          exact ⟨_, rfl⟩

/-- Creations, comments and changes of status, in any order of their steps: between the calls
every thread is read as what its callers have returned, with its comments in the order of the
lock, and no record is rejected. -/
theorem forum_kept (toLowerCase : String → String) (files : BoardFiles) (start : Threads)
    (hstart : ForumAt toLowerCase files start) (calls : List ForumCall)
    {c : Config BoardWorld BoardStep Failure ForumResult}
    (h : forumSystem.Reachable (forumCalls toLowerCase files calls) c) :
    ForumKept toLowerCase files start c := by
  obtain ⟨hinv, hends⟩ := forumCalls_ends hstart h
  refine ⟨fun hfree key hpost => ?_, fun hfree localeLE channelId hslug hforum => ?_,
    hinv.consistent.checked, hinv.consistent.once,
    fun t r hreturned => hends t _ (System.thread_of_returned hreturned),
    fun t e hthread => hends t _ hthread⟩
  · obtain ⟨thread, hthread⟩ := hinv.consistent.exists_thread hpost
    have hkeeps := hinv.represented (hinv.free hfree) key
    rw [hthread] at hkeeps
    refine ⟨thread, ?_, hinv.consistent.kept hthread⟩
    rw [runAlone_readForumPost]
    exact (hinv.consistent.sound key thread hthread).read hinv.room hinv.boardroom hkeeps
  · obtain ⟨posts, hposts⟩ := (hinv.represented (hinv.free hfree)).exists_found
      hinv.consistent.sound channelId (c.snap.world.files.entries channelId)
    rw [← checkForum_congr hinv.room hinv.boardroom] at hforum
    rw [runAlone_listForumPosts, BoardFiles.list, hslug, hforum, hposts]
    exact ⟨_, rfl⟩

end Runs

/-- A forum without a post. -/
def emptyForum : BoardFiles where
  room := .absent
  boardroom := .whole ⟨"r", none, [⟨"ideas", "Ideas", "forum", "active", 0⟩], "active", 0, 0,
    false⟩
  forum := .empty

/-- A post is created, gets another status, and meanwhile a comment. -/
def threeCalls : List ForumCall :=
  [.createForumPost "ideas" secondPost "" 0, .addForumComment "ideas" "second" "host" "Hi" 1,
    .setForumPostStatus "ideas" "second" "answered" 2]

/-- All three succeed, and the thread is kept, by the general theorem. -/
theorem forum_kept_threeCalls :
    ∃ c, forumSystem.Reachable (forumCalls id emptyForum threeCalls) c ∧
      c.snap.world.lock = none ∧
      System.returned c 1 =
        some (.comment ⟨1, "c1", "second", "ideas", "host", "Hi", "1970-01-01T00:00:00.001Z"⟩) ∧
      System.returned c 2 = some (.post ⟨1, "second", "ideas", "host", "Second", "", "answered", [],
        "1970-01-01T00:00:00.000Z", "1970-01-01T00:00:00.002Z"⟩) ∧
      ForumKept id emptyForum (fun _ => none) c := by
  have hrun : (forumSystem.replay (forumCalls id emptyForum threeCalls)
      (.run 1 :: List.replicate 257 (.run 0) ++ List.replicate 6 (.run 2) ++
        List.replicate 147 (.run 1))).map
      (fun c => (c.snap.world.lock, System.returned c 1, System.returned c 2)) =
      some (none,
        some (.comment ⟨1, "c1", "second", "ideas", "host", "Hi", "1970-01-01T00:00:00.001Z"⟩),
        some (.post ⟨1, "second", "ideas", "host", "Second", "", "answered", [],
          "1970-01-01T00:00:00.000Z", "1970-01-01T00:00:00.002Z"⟩)) := by decide +kernel
  obtain ⟨c, hc, hlast⟩ := System.exists_reachable_of_replay hrun
  obtain ⟨hlock, hreturned⟩ := Prod.mk.inj hlast
  obtain ⟨hcomment, hpost⟩ := Prod.mk.inj hreturned
  have hstart : ForumAt id emptyForum fun _ => none :=
    ⟨fun _ => ⟨rfl, rfl⟩, fun _ _ hthread => (nomatch hthread)⟩
  exact ⟨c, hc, hlock, hcomment, hpost,
    forum_kept id emptyForum (fun _ => none) hstart threeCalls hc⟩

end AgentGather.Storage.Boards
