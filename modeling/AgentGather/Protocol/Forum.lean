import AgentGather.Library.JsonFile
import AgentGather.Protocol.Boardroom

/-!
# Forum posts and comments

The frozen records of a forum, their checks, and their JSON.  Statuses are texts, as in the
stored file; times are the texts of `toISOString`.
-/

namespace AgentGather.Protocol

open AgentGather.Library

def forumSchemaVersion : Int := 1

def forumPostStatuses : List String := ["open", "answered", "resolved", "closed"]

def defaultForumPostStatus : String := "open"

def maxForumTags : Nat := 12

def maxForumTitleLength : Nat := 200

def maxForumBodyLength : Nat := 16000

structure ForumPost where
  schemaVersion : Int
  id : String
  channelId : String
  author : String
  title : String
  body : String
  status : String
  tags : List String
  createdAt : String
  updatedAt : String
deriving DecidableEq, Repr

structure ForumComment where
  schemaVersion : Int
  id : String
  postId : String
  channelId : String
  author : String
  body : String
  createdAt : String
deriving DecidableEq, Repr

/-! ## The checks -/

def isBlank (text : String) : Bool := (Text.trim text.toList).isEmpty

def parseForumStatus (value : String) : Except Failure Unit :=
  assertOneOf "forum status" forumPostStatuses value

/-- One tag of the loop; `out` are the tags kept so far. -/
def addForumTag (toLowerCase : String → String) (out : List String) (raw : String) :
    Except Failure (List String) :=
  let tag := toLowerCase (String.ofList (Text.trim raw.toList))
  if tag.isEmpty || out.contains tag then .ok out
  else if !isSafeSlug tag then
    .error (.error ("forum tag must be lowercase [a-z0-9-]: " ++ raw))
  else .ok (out ++ [tag])

def normalizeForumTags (toLowerCase : String → String) (tags : List String) :
    Except Failure (List String) := do
  let out ← tags.foldlM (addForumTag toLowerCase) []
  throwIf (maxForumTags < out.length)
    ("a forum post may have at most " ++ toString maxForumTags ++ " tags")
  return out

def assertForumTitle (title : String) : Except Failure Unit := do
  throwIf (isBlank title) "forum post title is required"
  throwIf (maxForumTitleLength < Text.utf16Length title.toList)
    ("forum post title must be <= " ++ toString maxForumTitleLength ++ " characters")

def assertForumBody (body : String) : Except Failure Unit :=
  throwIf (maxForumBodyLength < Text.utf16Length body.toList)
    ("forum body must be <= " ++ toString maxForumBodyLength ++ " characters")

def assertSchemaVersion (value : Int) (label : String) : Except Failure Unit :=
  throwIf (value != forumSchemaVersion)
    (label ++ " schema_version must be " ++ toString forumSchemaVersion ++ " (got " ++
      toString value ++ ")")

def assertValidForumPost (toLowerCase : String → String) (post : ForumPost) :
    Except Failure Unit := do
  assertSchemaVersion post.schemaVersion "forum post"
  assertSafeSlug post.id "forum post id"
  assertSafeSlug post.channelId "channel id"
  assertSafeSlug post.author "forum post author"
  assertForumTitle post.title
  assertForumBody post.body
  parseForumStatus post.status
  let _ ← normalizeForumTags toLowerCase post.tags

def assertValidForumComment (comment : ForumComment) : Except Failure Unit := do
  assertSchemaVersion comment.schemaVersion "forum comment"
  assertSafeSlug comment.id "forum comment id"
  assertSafeSlug comment.postId "forum post id"
  assertSafeSlug comment.channelId "channel id"
  assertSafeSlug comment.author "forum comment author"
  throwIf (isBlank comment.body) "forum comment body is required"
  assertForumBody comment.body

/-! ## JSON -/

def ForumPost.toJson (post : ForumPost) : Json :=
  .obj [("schema_version", .num post.schemaVersion), ("id", .str post.id),
    ("channel_id", .str post.channelId), ("author", .str post.author),
    ("title", .str post.title), ("body", .str post.body), ("status", .str post.status),
    ("tags", .arr (post.tags.map .str)), ("created_at", .str post.createdAt),
    ("updated_at", .str post.updatedAt)]

def ForumComment.toJson (comment : ForumComment) : Json :=
  .obj [("schema_version", .num comment.schemaVersion), ("id", .str comment.id),
    ("post_id", .str comment.postId), ("channel_id", .str comment.channelId),
    ("author", .str comment.author), ("body", .str comment.body),
    ("created_at", .str comment.createdAt)]

/-- The source casts what it parsed; a record with a field missing or of another type is no
record here. -/
def ForumPost.ofJson (value : Json) : Option ForumPost := do
  return {
    schemaVersion := ← (← value.field? "schema_version").number?
    id := ← (← value.field? "id").text?
    channelId := ← (← value.field? "channel_id").text?
    author := ← (← value.field? "author").text?
    title := ← (← value.field? "title").text?
    body := ← (← value.field? "body").text?
    status := ← (← value.field? "status").text?
    tags := ← (← value.field? "tags").texts?
    createdAt := ← (← value.field? "created_at").text?
    updatedAt := ← (← value.field? "updated_at").text? }

def ForumComment.ofJson (value : Json) : Option ForumComment := do
  return {
    schemaVersion := ← (← value.field? "schema_version").number?
    id := ← (← value.field? "id").text?
    postId := ← (← value.field? "post_id").text?
    channelId := ← (← value.field? "channel_id").text?
    author := ← (← value.field? "author").text?
    body := ← (← value.field? "body").text?
    createdAt := ← (← value.field? "created_at").text? }

/-! ## Records read back -/

theorem ForumPost.ofJson_toJson (post : ForumPost) : ofJson post.toJson = some post := by
  have hread : ofJson post.toJson = (Json.texts? (.arr (post.tags.map .str))).bind
      fun tags => some { post with tags := tags } := rfl
  rw [hread, Json.texts?_map_str]
  rfl

theorem ForumComment.ofJson_toJson (comment : ForumComment) :
    ofJson comment.toJson = some comment := rfl

theorem ForumPost.valid_toJson (post : ForumPost) : post.toJson.Valid := by
  simp [toJson, Json.Valid, Json.ValidFields, Json.validItems_map_str]

theorem ForumComment.valid_toJson (comment : ForumComment) : comment.toJson.Valid := by
  simp [toJson, Json.Valid, Json.ValidFields]

end AgentGather.Protocol
