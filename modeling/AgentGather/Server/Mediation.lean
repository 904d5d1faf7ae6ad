import AgentGather.Server.Permissions

/-!
# Mediation

Every step of a request but the serving of an asset comes behind the one that has read who its
token belongs to, and is one that this participant may make at this endpoint, whatever the other
requests, the timers and the host do meanwhile.
-/

namespace AgentGather.Server

open AgentGather.Library AgentGather.Protocol AgentGather.Storage AgentGather.Storage.Boards

/-! ## Identification -/

/-- The program of a request with the token at the endpoint does what it may, and answers a
participant only. -/
abbrev Mediated {α : Type} (o : ServerOptions) (endpoint : Endpoint) (token : Option String)
    (p : RoomProg ServerMemory α) : Prop :=
  (roomPolicy o endpoint token).Obeys (· = [])
    (fun _ steps => ∃ auth, Identified o endpoint token auth steps) (fun _ _ => True) p

section Identification

variable {o : ServerOptions} {endpoint : Endpoint} {req : Request} {α β : Type}

theorem behind_identified {token : Option String} {auth : Participant} :
    Behind o endpoint token auth (Identified o endpoint token auth) where
  lasting _ l h := h.cons l
  identified _ h := h

/-- The roster is read first, and who the token belongs to goes on. -/
theorem requireParticipant_identifies (req : Request) (allowRemoved : Bool)
    (hallow : allowRemoved = true → endpoint = .getWait) :
    (roomPolicy o endpoint req.token).Obeys (· = [])
      (fun auth steps => Identified o endpoint req.token auth steps ∧
        (allowRemoved = false → auth.removedAt = none))
      (fun _ _ => True) (requireParticipant o req allowRemoved) := by
  unfold requireParticipant
  cases htoken : req.token with
  | none => exact .err fun _ _ => trivial
  | some token =>
      have hread : (roomPolicy o endpoint (some token)).Obeys (· = [])
          (fun participants steps => ∃ found, steps = [.readParticipants found] ∧
            found.read = .ok participants) (fun _ _ => True)
          (readParticipants : RoomProg ServerMemory (List Participant)) := by
        refine .action (fun steps w hsteps => .inl ⟨hsteps, rfl, _, rfl⟩)
          (fun steps w participants hsteps hresult => ⟨_, ?_, hresult⟩)
          (fun _ _ _ _ _ => trivial) fun _ _ _ => trivial
        rw [hsteps]
      refine hread.bind fun participants => ?_
      cases hfound : findByToken o.hashToken token participants with
      | none => exact .err fun _ _ => trivial
      | some auth =>
          dsimp only
          split
          · exact .err fun _ _ => trivial
          · rename_i hremoved
            have hactive : allowRemoved = false → auth.removedAt = none := by
              intro hfalse
              simpa [hfalse] using hremoved
            refine .ret fun steps hsteps => ⟨?_, hactive⟩
            obtain ⟨found, rfl, hread⟩ := hsteps
            refine ⟨found, participants, rfl, hread, hfound, ?_⟩
            cases hcase : allowRemoved with
            | true => exact .inr (hallow hcase)
            | false => exact .inl (hactive hcase)

/-- A handler behind the identification. -/
theorem Mediated.identified {allowRemoved : Bool}
    (hallow : allowRemoved = true → endpoint = .getWait) {f : Participant → RoomProg ServerMemory α}
    (hf : ∀ auth I, Behind o endpoint req.token auth I →
      (allowRemoved = false → auth.removedAt = none) → Stays o endpoint req.token I (f auth)) :
    Mediated o endpoint req.token ((requireParticipant o req allowRemoved).bind f) := by
  refine (requireParticipant_identifies req allowRemoved hallow).bind fun auth => ?_
  intro steps hsteps
  exact (hf auth _ behind_identified hsteps.2 steps hsteps.1).conseq (fun _ _ h => ⟨auth, h⟩)
    fun _ _ _ => trivial

theorem Mediated.active {f : Participant → RoomProg ServerMemory α}
    (hf : ∀ auth I, Behind o endpoint req.token auth I → auth.removedAt = none →
      Stays o endpoint req.token I (f auth)) :
    Mediated o endpoint req.token ((requireParticipant o req false).bind f) :=
  .identified (fun h => by cases h) fun auth I h hactive => hf auth I h (hactive rfl)

/-- A handler for the host, behind its rate limit. -/
theorem Mediated.host {code : Participant → Nat → MemoryM Unit}
    {f : Participant → RoomProg ServerMemory α}
    (hf : ∀ auth I, Behind o endpoint req.token auth I → auth.isHost = true →
      Stays o endpoint req.token I (f auth)) :
    Mediated o endpoint req.token ((requireParticipant o req false).bind fun auth =>
      (synchronously (code auth)).bind fun _ =>
        (Prog.ofExcept (requireHost auth)).bind fun _ => f auth) :=
  .active fun auth I h _ => (h.synchronously _).bind fun _ =>
    .checked fun _ hhost => hf auth I h (isHost_of_requireHost hhost)

/-- What is done with a reply. -/
theorem Mediated.bind {token : Option String} {p : RoomProg ServerMemory α}
    {f : α → RoomProg ServerMemory β} (hp : Mediated o endpoint token p)
    (hf : ∀ a auth I, Behind o endpoint token auth I → Stays o endpoint token I (f a)) :
    Mediated o endpoint token (p.bind f) := by
  refine Policy.Obeys.bind hp fun a => ?_
  rintro steps ⟨auth, hsteps⟩
  exact (hf a auth _ behind_identified steps hsteps).conseq (fun _ _ h => ⟨auth, h⟩)
    fun _ _ _ => trivial

end Identification

/-! ## The handlers of the room -/

section RoomHandlers

variable {o : ServerOptions} {endpoint : Endpoint} {token : Option String} {auth : Participant}
  {I : List RoomStep → Prop} {t : Nat} {req : Request}

theorem sameRights_profileRecord (hactive : auth.removedAt = none)
    (declared : AttentionDeclaration) (displayName : String) (now : Nat) :
    SameRights auth (profileRecord auth declared displayName now) :=
  ⟨rfl, rfl, rfl, rfl, hactive, hactive⟩

theorem sameRights_joinRecord (hactive : auth.removedAt = none)
    (declared : AttentionDeclaration) (sessionId : Option String) (now : Nat) :
    SameRights auth (joinRecord auth declared sessionId now) :=
  ⟨rfl, rfl, rfl, rfl, hactive, rfl⟩

/-- What is said of a change, and who waits is told. -/
theorem Behind.announce {α : Type} (h : Behind o endpoint token auth I) (text : String)
    (reply : α) : Stays o endpoint token I ((Server.appendSystem t o text).bind fun _ =>
      (Server.synchronously fun _ => notifyWaiters).bind fun _ => .ret reply) :=
  (h.appendSystem text).bind fun _ => (h.synchronously _).bind fun _ => .done

theorem mediated_getMessages : Mediated o .getMessages req.token (getMessages t o req) := by
  refine .active fun auth I h hactive => ?_
  dsimp only
  split
  · exact .thrown
  · refine (h.touchParticipant (by decide) hactive _).bind fun _ => ?_
    split
    · exact .thrown
    · refine .checked fun limit _ => h.readMessages.bind fun all => ?_
      split
      · exact .checked fun _ _ => .done
      · exact .checked fun _ _ => .done

theorem mediated_postMessage : Mediated o .postMessage req.token (postMessage t o req) := by
  refine .active fun auth I h hactive => (h.readJsonBody req).bind fun body => ?_
  refine (h.touchParticipant (by decide) hactive _).bind fun _ => ?_
  refine h.requireRoomOpen.bind fun _ => (h.enforceGuards auth).bind fun _ => ?_
  refine (h.appendMessageResult rfl).bind fun result => ?_
  split
  · exact .done
  · exact (h.synchronously _).bind fun _ => .done

theorem Behind.waitSnapshot (h : Behind o endpoint token auth I) (participant : String)
    (sinceId : Nat) : Stays o endpoint token I (waitSnapshot t o participant sinceId) := by
  refine h.closeExpiredRoomIfNeeded.bind fun state => ?_
  dsimp only
  split
  · exact .done
  · refine h.readMessages.bind fun all => ?_
    split
    · exact .done
    · exact .done

theorem Behind.holdWait (h : Behind o endpoint token auth I) :
    Stays o endpoint token I (holdWait o) := by
  have hregister : Stays o endpoint token I
      (Prog.query (fun _ => .memory) fun w => .ok (w.memory.notifications, w.clock) :
        RoomProg ServerMemory (Nat × Nat)) := h.action (fun _ hI => hI) fun _ _ _ => trivial
  exact hregister.bind fun _ => h.action (fun _ hI => hI) fun _ _ _ => trivial

theorem Behind.waitReply (h : Behind o endpoint token auth I) (req : Request) :
    Stays o endpoint token I (waitReply t o req auth) := by
  refine .checked fun sinceId _ => ?_
  dsimp only
  split
  · exact .thrown
  · split
    · exact h.closeExpiredRoomIfNeeded.bind fun _ => .done
    · refine (h.waitSnapshot auth.aliasName sinceId).bind fun immediate => ?_
      cases immediate with
      | some immediate => exact .done
      | none =>
          refine h.holdWait.bind fun _ => ?_
          refine (h.waitSnapshot auth.aliasName sinceId).bind fun afterWait => ?_
          cases afterWait with
          | some afterWait => exact .done
          | none => exact .done

/-- Who has left the room may wait, without being recorded. -/
theorem mediated_getWait : Mediated o .getWait req.token (getWait t o req) := by
  refine .identified (fun _ => rfl) fun auth I h _ => ?_
  dsimp only
  split
  · rename_i hactive
    refine (h.touchParticipant (by decide) (Option.isNone_iff_eq_none.mp hactive) _).bind
      fun _ => h.waitReply req
  · exact h.waitReply req

theorem mediated_postProfile : Mediated o .postProfile req.token (postProfile t o req) := by
  refine .active fun auth I h hactive => (h.synchronously _).bind fun _ => ?_
  refine (h.readJsonBody req).bind fun body => ?_
  dsimp only
  split
  · refine .checked fun displayName _ => (h.fits fits_readParticipants).bind fun participants => ?_
    split
    · exact .thrown
    · refine .checked fun declared _ => (h.dateNow none).bind fun now => ?_
      exact (h.upsertParticipant (by decide)
        (sameRights_profileRecord hactive declared displayName now)).bind fun _ => .done
  · exact .thrown

theorem mediated_postJoin : Mediated o .postJoin req.token (postJoin t o req) := by
  refine .active fun auth I h hactive => (h.synchronously _).bind fun _ => ?_
  refine (h.dateNow none).bind fun now => (h.readJsonBody req).bind fun body => ?_
  refine .checked fun declared _ => .checked fun sessionId _ => ?_
  refine (h.joinParticipant (by decide) (sameRights_joinRecord hactive declared sessionId now)
    attendanceStaleAfterMs sessionId).bind fun _ => ?_
  exact h.announce _ _

theorem mediated_postLeave : Mediated o .postLeave req.token (postLeave t o req) := by
  refine .active fun auth I h hactive => (h.synchronously _).bind fun _ => ?_
  refine (h.dateNow none).bind fun now => ?_
  have hrights : SameRights auth { auth with attention := .away, lastSeenAt := now } :=
    ⟨rfl, rfl, rfl, rfl, hactive, hactive⟩
  exact (h.upsertParticipant (by decide) hrights).bind fun _ => h.announce _ _

theorem mediated_postClose : Mediated o .postClose req.token (postClose t o req) := by
  refine .host fun auth I h hhost => (h.synchronously _).bind fun _ => ?_
  refine (h.closeRoom (fun _ _ => .inl ⟨rfl, hhost⟩) none).bind fun _ => ?_
  exact h.announce _ _

theorem mediated_postLoopGuard : Mediated o .postLoopGuard req.token (postLoopGuard t o req) := by
  refine .host fun auth I h hhost => (h.readJsonBody req).bind fun body => ?_
  split
  · refine .checked fun delaySeconds _ => ?_
    refine (h.updateLoopGuardPreference hhost _).bind fun state => ?_
    split
    · exact (h.settling _).bind fun _ => .done
    · exact (h.synchronously _).bind fun _ => .done
  · exact .thrown

theorem Behind.startSession (h : Behind o .postSession token auth I) (hhost : auth.isHost = true)
    (body : Json) : Stays o .postSession token I (startSession t o auth body) := by
  unfold Server.startSession
  dsimp only
  split
  · exact .thrown
  · refine .checked fun expectedDurationM _ => .checked fun requestedMode _ => ?_
    refine Policy.Obeys.bind (Q := fun _ => I) ?_ fun session => h.announce _ _
    refine (h.startActiveSession hhost rfl).catchErr fun e => ?_
    split
    · exact .thrown
    · exact .thrown

theorem Behind.endSession (h : Behind o .postSession token auth I) (hhost : auth.isHost = true) :
    Stays o .postSession token I (endSession t o) := by
  refine (h.endActiveSession hhost o.roomId none).bind fun ended => ?_
  cases ended with
  | none => exact .thrown
  | some ended => exact h.announce _ _

theorem mediated_postSession : Mediated o .postSession req.token (postSession t o req) := by
  refine .host fun auth I h hhost => h.requireRoomOpen.bind fun _ => ?_
  refine (h.readJsonBody req).bind fun body => ?_
  split
  · exact h.startSession hhost body
  · exact h.endSession hhost
  · exact .thrown

theorem mediated_getBrief {o : RoomHttpServerOptions} :
    Mediated o.toServerOptions .getBrief req.token (getBrief t o req) :=
  .active fun _ _ h _ => (h.fits (fits_readBrief _)).bind fun _ => .done

theorem mediated_postBrief {o : RoomHttpServerOptions} :
    Mediated o.toServerOptions .postBrief req.token (postBrief t o req) := by
  refine .host fun auth I h hhost => (h.readJsonBody req).bind fun body => ?_
  refine .checked fun text _ => ?_
  split
  · dsimp only
    split
    · exact .thrown
    · refine (h.updateBrief hhost rfl).bind fun brief => ?_
      exact h.announce _ _
  · exact .thrown

theorem mediated_postAttendance {o : RoomHttpServerOptions} :
    Mediated o.toServerOptions .postAttendance req.token (postAttendance t o req) := by
  refine .host fun auth I h hhost => (h.readJsonBody req).bind fun body => ?_
  refine .checked fun text _ => ?_
  split
  · refine .checked fun policy _ => ?_
    refine (h.updateAttendancePolicy hhost _).bind fun state => ?_
    exact h.announce _ _
  · exact .thrown

theorem mediated_getProfile {o : RoomHttpServerOptions} :
    Mediated o.toServerOptions .getProfile req.token (getProfile o req) :=
  .active fun _ _ h _ => (h.dateNow none).bind fun _ => .done

theorem mediated_getCard {o : RoomHttpServerOptions} :
    Mediated o.toServerOptions .getCard req.token (getCard t o req) := by
  refine .active fun auth I h _ => ?_
  exact (h.fits ((fits_readBrief _).both fits_readRoomState _)).bind fun _ => .done

/-- What is stored is shown. -/
theorem mediated_showProfile {o : RoomHttpServerOptions} :
    Mediated o.toServerOptions .postProfile req.token (showProfile t o req) := by
  refine Mediated.bind mediated_postProfile fun reply auth I h => ?_
  cases reply with
  | profile updated => exact (h.dateNow none).bind fun _ => .done
  | _ => exact .done

end RoomHandlers

/-! ## The forum -/

section Forum

variable {endpoint : Endpoint} {auth : Participant} {t : Nat} {toLowerCase : String → String}

theorem newForumPost_author {channelId randomId : String} {input : CreateForumPostInput}
    {now : Nat} {post : ForumPost}
    (h : newForumPost toLowerCase channelId input randomId now = .ok post) :
    post.author = input.author := by
  obtain ⟨_, -, h⟩ := exists_ok_of_bind h
  obtain ⟨tags, -, h⟩ := exists_ok_of_bind h
  obtain ⟨_, -, h⟩ := exists_ok_of_bind h
  rw [← Except.ok.inj h]

theorem newForumComment_author {key : PostKey} {author body : String}
    {existing : List ForumComment} {now : Nat} {comment : ForumComment}
    (h : newForumComment key author body existing now = .ok comment) :
    comment.author = author := by
  obtain ⟨_, -, h⟩ := exists_ok_of_bind h
  rw [← Except.ok.inj h]

theorem permitted_look {α : Type} {label : BoardStep} {result : BoardFiles → Except Failure α}
    (h : PermittedInForum endpoint auth label) :
    (look label result).Announces (PermittedInForum endpoint auth) := .action fun _ => h

theorem permitted_change {label : BoardStep} {effect : BoardFiles → BoardFiles}
    (h : PermittedInForum endpoint auth label) :
    (change label effect).Announces (PermittedInForum endpoint auth) := .action fun _ => h

theorem permitted_readBoardroomUnlocked :
    readBoardroomUnlocked.Announces (PermittedInForum endpoint auth) := by
  refine .catchErr (permitted_look trivial) fun e => ?_
  split
  · exact permitted_look trivial
  · trivial

theorem permitted_assertForumChannel (channelId : String) :
    (assertForumChannel channelId).Announces (PermittedInForum endpoint auth) :=
  .andThen permitted_readBoardroomUnlocked fun _ => .ofExcept fun _ _ => trivial

theorem permitted_readValidPost (key : PostKey) :
    (readValidPost toLowerCase key).Announces (PermittedInForum endpoint auth) :=
  .andThen (permitted_look trivial) fun _ => .checked fun _ _ => trivial

theorem permitted_readForumPost (channelId postId : String) :
    (readForumPost toLowerCase channelId postId).Announces (PermittedInForum endpoint auth) := by
  refine .checked fun _ _ => .checked fun _ _ => ?_
  refine .andThen (permitted_assertForumChannel channelId) fun _ => ?_
  refine .andThen (permitted_readValidPost (channelId, postId)) fun _ => ?_
  exact .andThen (permitted_look trivial) fun _ => trivial

theorem permitted_readPosts (channelId : String) (entries : List String) :
    (readPosts toLowerCase channelId entries).Announces (PermittedInForum endpoint auth) := by
  induction entries with
  | nil => trivial
  | cons postId entries ih =>
      refine .andThen (.catchErr ?_ fun e => ?_) fun _ => .andThen ih fun _ => trivial
      · exact .andThen (permitted_readValidPost (channelId, postId)) fun _ => trivial
      · split
        · trivial
        · trivial

theorem permitted_listForumPosts (localeLE : String → String → Bool) (channelId : String) :
    (listForumPosts toLowerCase localeLE channelId).Announces
      (PermittedInForum endpoint auth) := by
  refine .checked fun _ _ => .andThen (permitted_assertForumChannel channelId) fun _ => ?_
  refine .andThen (permitted_look trivial) fun entries => ?_
  exact .andThen (permitted_readPosts channelId entries) fun _ => trivial

theorem permitted_locked {α : Type} {body : BoardProg α}
    (h : body.Announces (PermittedInForum endpoint auth)) :
    (Boards.withWriterLock t body).Announces (PermittedInForum endpoint auth) :=
  .andThen (.action fun _ => trivial) fun _ => h.finallyDo (.action fun _ => trivial)

theorem permitted_writeBytes {key : PostKey} {add : Nat → PostFiles → PostFiles}
    (h : PermittedInForum endpoint auth (.wroteByte key)) (bytes : List Nat) :
    (writeBytes key add bytes).Announces (PermittedInForum endpoint auth) := by
  induction bytes with
  | nil => trivial
  | cons byte bytes ih =>
      rw [writeBytes]
      exact .andThen (permitted_change h) fun _ => ih

theorem permitted_ensureSecureDir {key : PostKey}
    (h : endpoint = .postForumPost ∨ endpoint = .postForumComment) :
    (ensureSecureDir key).Announces (PermittedInForum endpoint auth) :=
  .andThen (permitted_change h) fun _ => permitted_change h

/-- A post is written in the name of who posts it. -/
theorem permitted_writeJsonNew {key : PostKey} {post : ForumPost}
    (h : post.author = auth.aliasName) :
    (writeJsonNew key post).Announces (PermittedInForum .postForumPost auth) := by
  have hopen : (openNew key).Announces (PermittedInForum .postForumPost auth) := by
    refine .action fun w => ?_
    split
    · exact rfl
    · exact rfl
  have hwrite : (writeBytes key PostFiles.addToPost (JsonFile.bytes post.toJson)).Announces
      (PermittedInForum .postForumPost auth) := permitted_writeBytes (.inl rfl) _
  refine .andThen (permitted_ensureSecureDir (.inl rfl)) fun _ => ?_
  refine .andThen (permitted_ensureSecureDir (.inl rfl)) fun _ => .andThen hopen fun _ => ?_
  refine .andThen (.finallyDo ?_ (permitted_change rfl)) fun _ => permitted_change (.inl rfl)
  exact .andThen hwrite fun _ => permitted_change ⟨rfl, h⟩

theorem permitted_createForumPost {input : CreateForumPostInput}
    (h : input.author = auth.aliasName) (channelId randomId : String) (now : Nat) :
    (createForumPost toLowerCase t channelId input randomId now).Announces
      (PermittedInForum .postForumPost auth) := by
  refine .checked fun _ _ => .checked fun _ _ => .checked fun _ _ => .checked fun _ _ => ?_
  refine .andThen (permitted_assertForumChannel channelId) fun _ => .checked fun post hpost => ?_
  have hauthor : post.author = auth.aliasName := (newForumPost_author hpost).trans h
  exact permitted_locked (.andThen (permitted_writeJsonNew hauthor) fun _ => trivial)

theorem permitted_appendSecureFile {key : PostKey} {comment : ForumComment}
    (h : comment.author = auth.aliasName) :
    (appendSecureFile key comment).Announces (PermittedInForum .postForumComment auth) := by
  refine .andThen (permitted_ensureSecureDir (.inr rfl)) fun _ => ?_
  refine .andThen (permitted_writeBytes (.inr rfl) _) fun _ => ?_
  exact .andThen (permitted_change ⟨rfl, h⟩) fun _ => permitted_change (.inr rfl)

theorem permitted_addForumComment (channelId postId body : String) (now : Nat) :
    (addForumComment toLowerCase t channelId postId auth.aliasName body now).Announces
      (PermittedInForum .postForumComment auth) := by
  refine .checked fun _ _ => .checked fun _ _ => .checked fun _ _ => .checked fun _ _ => ?_
  refine .andThen (permitted_assertForumChannel channelId) fun _ => permitted_locked ?_
  refine .andThen (permitted_readValidPost (channelId, postId)) fun _ => ?_
  refine .andThen (permitted_look trivial) fun existing => .checked fun comment hcomment => ?_
  exact .andThen (permitted_appendSecureFile (newForumComment_author hcomment)) fun _ => trivial

end Forum

/-! ## Over all the files -/

/-- The steps on the files of the room. -/
def roomSteps : List ServedStep → List RoomStep
  | [] => []
  | .room l :: steps => l :: roomSteps steps
  | _ :: steps => roomSteps steps

/-- The asset that the endpoint serves. -/
def Endpoint.asset : Endpoint → Option String
  | .browserShell => some "room.html"
  | .browserAsset name => some name
  | .browserBinaryAsset name => some name
  | .protocolAsset name => some name
  | _ => none

/-- Assets are served to anyone; the room and its forum are for participants. -/
def ServedStep.May (o : ServerOptions) (endpoint : Endpoint) (token : Option String)
    (steps : List RoomStep) : ServedStep → Prop
  | .asset name => endpoint.asset = some name
  | .room l => endpoint.asset = none ∧ roomPolicy o endpoint token steps l
  | .board l => ∃ auth, Identified o endpoint token auth steps ∧ PermittedInForum endpoint auth l

/-- The policy of a request. -/
def requestPolicy (H : HostParser) (o : RoomHttpServerOptions) (context : RequestContext) :
    Policy ServedStep := fun steps l => ∃ endpoint, route H o context = .ok endpoint ∧
  l.May o.toServerOptions endpoint (context.token endpoint) (roomSteps steps)

/-- Only an asset is served without a participant being known. -/
def RightlyAnswered (H : HostParser) (o : RoomHttpServerOptions) (context : RequestContext)
    (reply : ServedReply) (steps : List ServedStep) : Prop :=
  (∃ name, reply = .asset name) ∨ ∃ endpoint auth, route H o context = .ok endpoint ∧
    Identified o.toServerOptions endpoint (context.token endpoint) auth (roomSteps steps)

/-- The request does what it may, from its beginning. -/
abbrev RequestMediated (H : HostParser) (o : RoomHttpServerOptions) (context : RequestContext)
    (p : ServedProg ServedReply) : Prop :=
  (requestPolicy H o context).Obeys (· = []) (RightlyAnswered H o context) (fun _ _ => True) p

/-- The request goes on like that, and `I` stays. -/
abbrev GoesOn {α : Type} (H : HostParser) (o : RoomHttpServerOptions) (context : RequestContext)
    (I : List RoomStep → Prop) (p : ServedProg α) : Prop :=
  (requestPolicy H o context).Obeys (fun steps => I (roomSteps steps))
    (fun _ steps => I (roomSteps steps)) (fun _ steps => I (roomSteps steps)) p

/-- The step may be made whatever was made before. -/
def Anytime (endpoint : Endpoint) (auth : Participant) : ServedStep → Prop
  | .asset _ => False
  | .room l => Fits endpoint auth l
  | .board l => PermittedInForum endpoint auth l

/-- The request has come to an endpoint that serves no asset. -/
structure Reached (H : HostParser) (o : RoomHttpServerOptions) (context : RequestContext)
    (endpoint : Endpoint) : Prop where
  route : route H o context = .ok endpoint
  asset : endpoint.asset = none

section Served

variable {H : HostParser} {o : RoomHttpServerOptions} {context : RequestContext}
  {endpoint : Endpoint} {auth : Participant} {I : List RoomStep → Prop} {t : Nat} {α : Type}

theorem Reached.lift {J : List RoomStep → Prop} {Q : α → List RoomStep → Prop}
    {E : Failure → List RoomStep → Prop} (h : Reached H o context endpoint)
    {p : RoomProg ServerMemory α}
    (hp : (roomPolicy o.toServerOptions endpoint (context.token endpoint)).Obeys J Q E p) :
    (requestPolicy H o context).Obeys (fun steps => J (roomSteps steps))
      (fun a steps => Q a (roomSteps steps)) (fun e steps => E e (roomSteps steps)) (onRoom p) :=
  hp.lift (fun _ _ => rfl) fun _ _ hl => ⟨endpoint, h.route, h.asset, hl⟩

/-- A part of which every step may be made at any time. -/
theorem Reached.anytime (h : Reached H o context endpoint)
    (hI : Behind o.toServerOptions endpoint (context.token endpoint) auth I) {p : ServedProg α}
    (hp : p.Announces (Anytime endpoint auth)) : GoesOn H o context I p := by
  have hobeys : (requestPolicy H o context).Obeys (fun steps => I (roomSteps steps))
      (fun _ steps => I (roomSteps steps) ∧ True) (fun _ steps => I (roomSteps steps)) p := by
    refine .of_does hp fun steps l hsteps hl => ?_
    cases l with
    | asset name => exact absurd hl not_false
    | room l =>
        exact ⟨⟨endpoint, h.route, h.asset, hI.may hsteps (hl _)⟩, hI.lasting _ l hsteps⟩
    | board l => exact ⟨⟨endpoint, h.route, auth, hI.identified _ hsteps, hl⟩, hsteps⟩
  exact hobeys.conseq (fun _ h => h) (fun _ _ h => h.1) fun _ _ h => h

theorem anytime_onRoom {p : RoomProg ServerMemory α} (h : p.Announces (Fits endpoint auth)) :
    (onRoom p).Announces (Anytime endpoint auth) := by
  have hown : p.Announces fun l => Anytime endpoint auth (.room l) := h
  exact hown.lift

theorem anytime_onBoard {p : BoardProg α} (h : p.Announces (PermittedInForum endpoint auth)) :
    (onBoard p).Announces (Anytime endpoint auth) := by
  have hown : p.Announces fun l => Anytime endpoint auth (.board l) := h
  exact hown.lift

/-- A handler of the room alone. -/
theorem Reached.answers (h : Reached H o context endpoint) {p : RoomProg ServerMemory ServedReply}
    (hp : Mediated o.toServerOptions endpoint (context.request endpoint).token p) :
    RequestMediated H o context (onRoom p) := by
  refine (h.lift hp).conseq (fun steps hsteps => ?_) (fun reply steps hknown => .inr ?_)
    fun _ _ _ => trivial
  · rw [hsteps]
    rfl
  · obtain ⟨auth, hauth⟩ := hknown
    exact ⟨endpoint, auth, h.route, hauth⟩

theorem Reached.replying (h : Reached H o context endpoint) {p : Handler}
    (hp : Mediated o.toServerOptions endpoint (context.request endpoint).token p) :
    RequestMediated H o context (replying p) :=
  h.answers (hp.bind fun _ _ _ _ => .done)

/-- What follows the identification. -/
theorem Reached.behind (h : Reached H o context endpoint) {p : ServedProg ServedReply}
    (hp : ∀ I, Behind o.toServerOptions endpoint (context.token endpoint) auth I →
      GoesOn H o context I p) :
    (requestPolicy H o context).Obeys
      (fun steps => Identified o.toServerOptions endpoint (context.token endpoint) auth
        (roomSteps steps)) (RightlyAnswered H o context) (fun _ _ => True) p :=
  (hp _ behind_identified).conseq (fun _ hknown => hknown)
    (fun _ _ hknown => .inr ⟨endpoint, auth, h.route, hknown⟩) fun _ _ _ => trivial

theorem Reached.active (h : Reached H o context endpoint)
    {f : Participant → ServedProg ServedReply}
    (hf : ∀ auth I, Behind o.toServerOptions endpoint (context.token endpoint) auth I →
      GoesOn H o context I (f auth)) :
    RequestMediated H o context ((onRoom (requireParticipant o.toServerOptions
      (context.request endpoint) false)).bind f) := by
  have hfirst := h.lift (requireParticipant_identifies (o := o.toServerOptions)
    (context.request endpoint) false fun h => by cases h)
  refine (hfirst.pre fun steps hsteps => ?_).bind fun auth =>
    (h.behind (hf auth)).conseq (fun _ hknown => hknown.1) (fun _ _ h => h) fun _ _ h => h
  rw [hsteps]
  rfl

theorem getStatus_answers (h : Reached H o context endpoint) :
    RequestMediated H o context (getStatus t o (context.request endpoint)) := by
  refine h.active fun auth I hI => (h.anytime hI ?_).bind fun found => ?_
  · exact .both (anytime_onRoom fits_readRoomState) (.both (anytime_onRoom fits_readParticipants)
      (anytime_onBoard permitted_readBoardroomUnlocked) _) _
  · exact (h.lift (hI.synchronously _)).bind fun _ => .done

theorem getBoardroom_answers (h : Reached H o context endpoint) :
    RequestMediated H o context (getBoardroom o (context.request endpoint)) :=
  h.active fun _ _ hI =>
    (h.anytime hI (anytime_onBoard permitted_readBoardroomUnlocked)).bind fun _ => .done

theorem forumGuard_goesOn (h : Reached H o context endpoint)
    (hI : Behind o.toServerOptions endpoint (context.token endpoint) auth I) {p : BoardProg α}
    (hp : p.Announces (PermittedInForum endpoint auth)) :
    GoesOn H o context I (forumGuard o p) :=
  (h.anytime hI (anytime_onBoard hp)).catchErr fun _ => .thrown

theorem anytime_withCounts (channel : String) (posts : List ForumPost) :
    (withCounts t o channel posts).Announces (Anytime endpoint auth) := by
  induction posts with
  | nil => trivial
  | cons post posts ih =>
      exact .andThen (.both (anytime_onBoard (permitted_readForumPost channel post.id)) ih _)
        fun _ => trivial

theorem getForumPosts_answers (h : Reached H o context endpoint) :
    RequestMediated H o context (getForumPosts t o (context.request endpoint)) := by
  refine h.active fun auth I hI => .checked fun channel _ => ?_
  refine (forumGuard_goesOn h hI (permitted_listForumPosts o.localeLE channel)).bind
    fun posts => ?_
  exact (h.anytime hI (anytime_withCounts channel posts)).bind fun _ => .done

theorem getForumPost_answers (h : Reached H o context endpoint) :
    RequestMediated H o context (getForumPost o (context.request endpoint)) := by
  refine h.active fun auth I hI => .checked fun channel _ => .checked fun post _ => ?_
  exact (forumGuard_goesOn h hI (permitted_readForumPost channel post)).bind fun _ => .done

theorem requireWriter_identifies (req : Request) (name : String) :
    (roomPolicy o.toServerOptions endpoint req.token).Obeys (· = [])
      (fun writer steps => Identified o.toServerOptions endpoint req.token writer.1 steps)
      (fun _ _ => True) (requireWriter t o req name) := by
  refine (requireParticipant_identifies req false fun h => by cases h).bind fun auth => ?_
  have h : Behind o.toServerOptions endpoint req.token auth
      (Identified o.toServerOptions endpoint req.token auth) := behind_identified
  intro steps hsteps
  have hrest : (roomPolicy o.toServerOptions endpoint req.token).Obeys
      (Identified o.toServerOptions endpoint req.token auth)
      (fun writer : Participant × Json =>
        Identified o.toServerOptions endpoint req.token writer.1)
      (fun _ => Identified o.toServerOptions endpoint req.token auth)
      ((Server.synchronously fun now =>
        enforceWriteRateLimit o.roomId auth.aliasName name now).bind fun _ =>
          (Server.requireRoomOpen t o.toServerOptions).bind fun _ =>
            (Server.readJsonBody req).bind fun body => .ret (auth, body)) := by
    refine (h.synchronously _).bind fun _ => h.requireRoomOpen.bind fun _ => ?_
    exact (h.readJsonBody req).bind fun body => .ret fun _ hI => hI
  exact (hrest steps hsteps.1).conseq (fun _ _ h => h) fun _ _ _ => trivial

/-- The post of a request is its author's. -/
theorem forumPostInput_author {author channel : String} {body : Json}
    {input : CreateForumPostInput} (h : forumPostInput author body = .ok (channel, input)) :
    input.author = author := by
  obtain ⟨member, -, h⟩ := exists_ok_of_bind h
  split at h
  · obtain ⟨status, -, h⟩ := exists_ok_of_bind h
    obtain ⟨-, rfl⟩ := Prod.mk.inj (Except.ok.inj h)
    rfl
  · cases h

theorem Reached.writer (h : Reached H o context endpoint) {name : String}
    {f : Participant × Json → ServedProg ServedReply}
    (hf : ∀ auth body I, Behind o.toServerOptions endpoint (context.token endpoint) auth I →
      GoesOn H o context I (f (auth, body))) :
    RequestMediated H o context
      ((onRoom (requireWriter t o (context.request endpoint) name)).bind f) := by
  have hfirst := h.lift (requireWriter_identifies (o := o) (t := t) (context.request endpoint)
    name)
  refine (hfirst.pre fun steps hsteps => ?_).bind fun writer => h.behind (hf writer.1 writer.2)
  rw [hsteps]
  rfl

theorem postForumPost_answers (h : Reached H o context .postForumPost) :
    RequestMediated H o context (postForumPost t o (context.request .postForumPost)) := by
  refine h.writer fun auth body I hI => .checked fun posted hposted => ?_
  refine (h.lift (hI.dateNow none)).bind fun now => ?_
  refine (forumGuard_goesOn h hI ?_).bind fun post => .done
  exact permitted_createForumPost (forumPostInput_author hposted) _ _ _

theorem postForumComment_answers (h : Reached H o context .postForumComment) :
    RequestMediated H o context (postForumComment t o (context.request .postForumComment)) := by
  refine h.writer fun auth body I hI => .checked fun commented _ => ?_
  refine (h.lift (hI.dateNow none)).bind fun now => ?_
  exact (forumGuard_goesOn h hI (permitted_addForumComment _ _ _ _)).bind fun _ => .done

end Served

/-! ## Runs -/

section Runs

variable {H : HostParser} {o : RoomHttpServerOptions} {context : RequestContext} {t : Nat}

theorem serveAsset_answers {endpoint : Endpoint} (hroute : route H o context = .ok endpoint)
    {name : String} (hasset : endpoint.asset = some name) :
    RequestMediated H o context (serveAsset name) := by
  have hserve : (requestPolicy H o context).Obeys (· = []) (fun _ _ => True) (fun _ _ => True)
      (Prog.update (fun _ => .asset name) id : ServedProg Unit) :=
    .action (fun _ _ _ => ⟨endpoint, hroute, hasset⟩) (fun _ _ _ _ _ => trivial)
      (fun _ _ _ _ _ => trivial) fun _ _ _ => trivial
  exact hserve.bind fun _ => .ret fun _ _ => .inl ⟨name, rfl⟩

theorem handler_answers {endpoint : Endpoint} (hroute : route H o context = .ok endpoint) :
    RequestMediated H o context (endpoint.handler t o (context.request endpoint)) := by
  cases endpoint with
  | browserShell => exact serveAsset_answers hroute rfl
  | browserAsset name => exact serveAsset_answers hroute rfl
  | browserBinaryAsset name => exact serveAsset_answers hroute rfl
  | protocolAsset name => exact serveAsset_answers hroute rfl
  | getForumPosts => exact getForumPosts_answers ⟨hroute, rfl⟩
  | getForumPost => exact getForumPost_answers ⟨hroute, rfl⟩
  | postForumPost => exact postForumPost_answers ⟨hroute, rfl⟩
  | postForumComment => exact postForumComment_answers ⟨hroute, rfl⟩
  | getBrief => exact Reached.answers ⟨hroute, rfl⟩ mediated_getBrief
  | postBrief => exact Reached.answers ⟨hroute, rfl⟩ mediated_postBrief
  | postAttendance => exact Reached.answers ⟨hroute, rfl⟩ mediated_postAttendance
  | postLoopGuard => exact Reached.replying ⟨hroute, rfl⟩ mediated_postLoopGuard
  | getProfile => exact Reached.answers ⟨hroute, rfl⟩ mediated_getProfile
  | postProfile => exact Reached.answers ⟨hroute, rfl⟩ mediated_showProfile
  | getCard => exact Reached.answers ⟨hroute, rfl⟩ mediated_getCard
  | postJoin => exact Reached.replying ⟨hroute, rfl⟩ mediated_postJoin
  | getMessages => exact Reached.replying ⟨hroute, rfl⟩ mediated_getMessages
  | postMessage => exact Reached.replying ⟨hroute, rfl⟩ mediated_postMessage
  | getWait => exact Reached.replying ⟨hroute, rfl⟩ mediated_getWait
  | postLeave => exact Reached.replying ⟨hroute, rfl⟩ mediated_postLeave
  | postClose => exact Reached.replying ⟨hroute, rfl⟩ mediated_postClose
  | postSession => exact Reached.replying ⟨hroute, rfl⟩ mediated_postSession
  | getStatus => exact getStatus_answers ⟨hroute, rfl⟩
  | getBoardroom => exact getBoardroom_answers ⟨hroute, rfl⟩

theorem handleRequest_answers : RequestMediated H o context (handleRequest H t o context) :=
  .bind_ofExcept (fun _ hroute => handler_answers hroute) fun _ _ _ _ => trivial

/-- The policy of a call; of what the host does itself nothing is asked. -/
def ServedCall.policy (H : HostParser) (o : RoomHttpServerOptions) : ServedCall → Policy ServedStep
  | .request context => requestPolicy H o context
  | _ => fun _ _ => True

/-- Who is answered by a call. -/
def ServedCall.RightlyAnswered (H : HostParser) (o : RoomHttpServerOptions) :
    ServedCall → Option ServedReply → List ServedStep → Prop
  | .request context, some reply, steps => Server.RightlyAnswered H o context reply steps
  | _, _, _ => True

theorem call_obeys (call : ServedCall) : (call.policy H o).Obeys (· = [])
    (call.RightlyAnswered H o) (fun _ _ => True) (call.prog H o t) := by
  cases call with
  | request context => exact handleRequest_answers.bind fun _ => .ret fun _ h => h
  | autoContinue cycle => exact .trivially _
  | roomInvite options => exact .trivially _
  | hostWrite participant => exact .trivially _
  | channel call => exact .trivially _
  | timePasses ms => exact .trivially _

/-- Whatever else is going on, a request serves an asset, or its first step reads the roster and
every other one is permitted to the participant its token belongs to there, and so is its answer
to such a participant. -/
theorem request_mediated {process : Nat → Nat} {w : ServedWorld} {calls : List ServedCall}
    {c : Config ServedWorld ServedStep Failure (Option ServedReply)}
    (h : (servedSystem process).Reachable (served H o w calls) c)
    (hcall : calls[t]? = some (.request context)) :
    (requestPolicy H o context).Obeyed (stepsOf t c.snap.trace) ∧
      ∀ reply, System.returned c t = some (some reply) →
        RightlyAnswered H o context reply (stepsOf t c.snap.trace) := by
  let call := fun t => calls.getD t (.timePasses 0)
  have hstart : ∀ t p, System.thread (served H o w calls) t = some p →
      ((call t).policy H o).Obeys (· = []) ((call t).RightlyAnswered H o) (fun _ _ => True) p := by
    intro t p hp
    obtain ⟨other, hother, rfl⟩ := thread_served hp
    have hcall : call t = other := by simp only [call, List.getD, hother, Option.getD_some]
    rw [hcall]
    exact call_obeys other
  have hthis : call t = .request context := by simp only [call, List.getD, hcall, Option.getD_some]
  obtain ⟨hobeyed, hleft⟩ := Policy.sound (fun t => (call t).policy H o) rfl hstart h t
  rw [hthis] at hobeyed
  refine ⟨hobeyed, fun reply hreply => ?_⟩
  have hanswered := hleft _ (System.thread_of_returned hreply)
  rwa [hthis] at hanswered

end Runs

/-! ## A message -/

def mediatedServer : RoomHttpServerOptions where
  toServerOptions := smallServer
  baseUrl := "http://127.0.0.1:8787".toList
  allowInsecureRemote := false
  localeLE a b := decide (a ≤ b)
  message _ := "error"
  randomPostId _ := "post-1"
  bodyFirst _ := true
  schedule _ _ := []

def helloUrl : Url where
  scheme := "http".toList
  username := []
  password := []
  host := some "127.0.0.1".toList
  port := some 8787
  path := .segments ["messages".toList]
  query := none
  fragment := none

/-- The agent says hello from a page of the server. -/
def helloRequest : RequestContext where
  method := "POST"
  url := helloUrl
  host := some "127.0.0.1:8787".toList
  origin := some "http://127.0.0.1:8787".toList
  referer := none
  authorization := some "Bearer bb".toList
  body := .ok (.obj [("text", .str "hello")])

def servedRoom : ServedWorld := ⟨⟨openRoom, none, 0, .initial⟩, .absent, .empty⟩

/-- Who has said what in the step. -/
def ServedStep.said : ServedStep → Option (String × String)
  | .room (.appended message) => some (message.sender, message.text)
  | _ => none

/-- The agent's message comes behind its identification, and so does the answer. -/
theorem request_mediated_hello :
    ∃ c reply, (servedSystem id).Reachable
        (served .plain mediatedServer servedRoom [.request helloRequest]) c ∧
      (stepsOf 0 c.snap.trace).filterMap ServedStep.said = [("agent", "hello")] ∧
      System.returned c 0 = some (some reply) ∧
      (requestPolicy .plain mediatedServer helloRequest).Obeyed (stepsOf 0 c.snap.trace) ∧
      RightlyAnswered .plain mediatedServer helloRequest reply (stepsOf 0 c.snap.trace) := by
  have hrun : ((servedSystem id).replay
      (served .plain mediatedServer servedRoom [.request helloRequest])
      (List.replicate 20 (.run 0))).map (fun c =>
        ((stepsOf 0 c.snap.trace).filterMap ServedStep.said,
          (System.returned c 0).join.isSome)) = some ([("agent", "hello")], true) := by
    decide +kernel
  obtain ⟨c, hc, hv⟩ := System.exists_reachable_of_replay hrun
  obtain ⟨hsaid, hreply⟩ := Prod.mk.inj hv
  obtain ⟨reply, hreply⟩ := Option.isSome_iff_exists.mp hreply
  have hreturned : System.returned c 0 = some (some reply) := Option.join_eq_some_iff.mp hreply
  obtain ⟨hobeyed, hanswered⟩ := request_mediated (t := 0) hc rfl
  exact ⟨c, reply, hc, hsaid, hreturned, hobeyed, hanswered reply hreturned⟩

end AgentGather.Server
