import AgentGather.Storage.BoardDiscipline

/-!
# What the readers of the boards read

The programs that only read, run with nobody else under way, return a function of the files.
-/

namespace AgentGather.Storage.Boards

open AgentGather.Library AgentGather.Protocol

variable {toLowerCase : String → String} {w : BoardWorld}

theorem runAlone_readBoardroomUnlocked :
    readBoardroomUnlocked.runAlone w = (w.files.loaded, w) := by
  rw [readBoardroomUnlocked, Prog.runAlone_catchErr, look, Prog.runAlone_query]
  cases hread : w.files.readBoardroom with
  | ok boardroom => rw [BoardFiles.loaded, hread]
  | error e =>
      dsimp only
      by_cases he : e = .notFound
      · subst he
        rw [if_pos rfl, look, Prog.runAlone_query, BoardFiles.loaded, hread]
      · rw [if_neg he, Prog.runAlone_err, BoardFiles.loaded, hread]
        simp [he]

/-- The check that a channel is there and is a forum. -/
def BoardFiles.checkForum (channelId : String) (files : BoardFiles) : Except Failure Unit :=
  files.loaded >>= checkForumChannel channelId

section

variable {files files' : BoardFiles} {channelId : String}

theorem loaded_congr (hroom : files'.room = files.room)
    (hboardroom : files'.boardroom = files.boardroom) : files'.loaded = files.loaded := by
  simp only [BoardFiles.loaded, BoardFiles.readBoardroom, BoardFiles.projectRoom, hroom,
    hboardroom]

theorem checkForum_congr (hroom : files'.room = files.room)
    (hboardroom : files'.boardroom = files.boardroom) :
    files'.checkForum channelId = files.checkForum channelId := by
  rw [BoardFiles.checkForum, loaded_congr hroom hboardroom, BoardFiles.checkForum]

end

theorem runAlone_assertForumChannel (channelId : String) :
    (assertForumChannel channelId).runAlone w = (w.files.checkForum channelId, w) :=
  Prog.runAlone_bind_of_reads runAlone_readBoardroomUnlocked fun boardroom _ =>
    Prog.runAlone_ofExcept (checkForumChannel channelId boardroom) w

/-- `post.json`, read and checked. -/
def BoardFiles.validPost (toLowerCase : String → String) (key : PostKey) (files : BoardFiles) :
    Except Failure ForumPost := do
  let post ← files.readPost key
  assertValidForumPost toLowerCase post
  return post

theorem runAlone_readValidPost (key : PostKey) :
    (readValidPost toLowerCase key).runAlone w = (w.files.validPost toLowerCase key, w) :=
  Prog.runAlone_bind_of_reads (Prog.runAlone_query _ _ w) fun _ _ =>
    Prog.runAlone_bind_of_reads (Prog.runAlone_ofExcept _ w) fun _ _ => rfl

theorem runAlone_readCommentsLog (key : PostKey) :
    (readCommentsLog key).runAlone w = (w.files.readComments key, w) :=
  Prog.runAlone_query _ _ w

/-- A post and its comments, read and checked. -/
def BoardFiles.thread (toLowerCase : String → String) (channelId postId : String)
    (files : BoardFiles) : Except Failure ForumPostThread := do
  assertSafeSlug channelId "channel id"
  assertSafeSlug postId "forum post id"
  files.checkForum channelId
  let post ← files.validPost toLowerCase (channelId, postId)
  let comments ← files.readComments (channelId, postId)
  return ⟨post, comments⟩

theorem runAlone_readForumPost (channelId postId : String) :
    (readForumPost toLowerCase channelId postId).runAlone w =
      (w.files.thread toLowerCase channelId postId, w) :=
  Prog.runAlone_bind_of_reads (Prog.runAlone_ofExcept _ w) fun _ _ =>
    Prog.runAlone_bind_of_reads (Prog.runAlone_ofExcept _ w) fun _ _ =>
    Prog.runAlone_bind_of_reads (runAlone_assertForumChannel channelId) fun _ _ =>
    Prog.runAlone_bind_of_reads (runAlone_readValidPost _) fun _ _ =>
    Prog.runAlone_bind_of_reads (runAlone_readCommentsLog _) fun _ _ => rfl

/-! ## The list of a channel's posts -/

/-- What one directory adds to the list. -/
def BoardFiles.found (toLowerCase : String → String) (key : PostKey) (files : BoardFiles) :
    Except Failure (List ForumPost) :=
  match files.validPost toLowerCase key with
  | .ok post => .ok [post]
  | .error e => if e = .notFound then .ok [] else .error e

/-- The loop over the directories. -/
def BoardFiles.foundAll (toLowerCase : String → String) (channelId : String)
    (files : BoardFiles) : List String → Except Failure (List ForumPost)
  | [] => .ok []
  | postId :: entries => do
      let found ← files.found toLowerCase (channelId, postId)
      let posts ← foundAll toLowerCase channelId files entries
      return found ++ posts

theorem runAlone_readPosts (channelId : String) (entries : List String) :
    (readPosts toLowerCase channelId entries).runAlone w =
      (w.files.foundAll toLowerCase channelId entries, w) := by
  induction entries with
  | nil => rfl
  | cons postId entries ih =>
      refine Prog.runAlone_bind_of_reads (r := w.files.found toLowerCase (channelId, postId)) ?_
        fun _ _ => Prog.runAlone_bind_of_reads ih fun _ _ => rfl
      have hread := Prog.runAlone_bind_of_reads (f := fun post => .ret [post])
        (@runAlone_readValidPost toLowerCase w (channelId, postId))
        fun post _ => Prog.runAlone_ret [post] w
      rw [Prog.runAlone_catchErr]
      simp only [Prog.bind_eq_bind, Prog.pure_eq_ret, hread, BoardFiles.found]
      cases w.files.validPost toLowerCase (channelId, postId) with
      | ok post => rfl
      | error e =>
          change (if e = .notFound then (Prog.ret [] : BoardProg (List ForumPost))
            else .err e).runAlone w = _
          by_cases he : e = .notFound
          · simp only [if_pos he, Prog.runAlone_ret]
          · simp only [if_neg he, Prog.runAlone_err]

/-- The posts of a channel, sorted. -/
def BoardFiles.list (toLowerCase : String → String) (localeLE : String → String → Bool)
    (channelId : String) (files : BoardFiles) : Except Failure (List ForumPost) := do
  assertSafeSlug channelId "channel id"
  files.checkForum channelId
  let posts ← files.foundAll toLowerCase channelId (files.entries channelId)
  return posts.mergeSort fun a b => localeLE a.createdAt b.createdAt

theorem runAlone_listForumPosts (localeLE : String → String → Bool) (channelId : String) :
    (listForumPosts toLowerCase localeLE channelId).runAlone w =
      (w.files.list toLowerCase localeLE channelId, w) := by
  let sort (posts : List ForumPost) : List ForumPost :=
    posts.mergeSort fun a b => localeLE a.createdAt b.createdAt
  refine Prog.runAlone_bind_of_reads (Prog.runAlone_ofExcept _ w) fun _ _ =>
    Prog.runAlone_bind_of_reads (runAlone_assertForumChannel channelId) fun _ _ => ?_
  have hentries : (look (.readDirectory channelId) fun f => .ok (f.entries channelId)).runAlone w =
      (.ok (w.files.entries channelId), w) := Prog.runAlone_query _ _ w
  refine Prog.runAlone_bind_of_reads hentries
    (g := fun entries => w.files.foundAll toLowerCase channelId entries >>= fun posts =>
      .ok (sort posts)) fun entries _ => ?_
  exact Prog.runAlone_bind_of_reads (runAlone_readPosts channelId entries) fun _ _ => rfl

end AgentGather.Storage.Boards
