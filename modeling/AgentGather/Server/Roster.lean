import AgentGather.Server.Requests

/-!
# Roster writes of requests

A request authenticates by reading the roster outside the writer lock, and later stores
the record it read, with the fields it sets itself, under the lock.  In every run, a
request overwrites what another writer committed exactly when, at its write, the stored
record differs from the one it read in a field that it does not set.
-/

namespace AgentGather.Server

open AgentGather.Library AgentGather.Protocol AgentGather.Storage

/-! ## Fields -/

/-- The fields of a participant's record besides its alias. -/
inductive Field where
  | displayName
  | kind
  | location
  | install
  | attention
  | isHost
  | tokenHash
  | removedAt
  | joinedAt
  | lastSeenAt
  | supportedModes
  | requestedMode
  | effectiveMode
  | pollCadenceS
  | safetyWakeS
  | forumReviewChannel
  | sessionId
deriving DecidableEq, Repr

def Field.all : List Field :=
  [.displayName, .kind, .location, .install, .attention, .isHost, .tokenHash, .removedAt,
    .joinedAt, .lastSeenAt, .supportedModes, .requestedMode, .effectiveMode, .pollCadenceS,
    .safetyWakeS, .forumReviewChannel, .sessionId]

/-- The records agree on the field.  Absent modes count as what negotiation takes them
for, and lists of modes as sets. -/
def Field.agree (p q : Participant) : Field → Bool
  | .displayName => p.displayName == q.displayName
  | .kind => p.kind == q.kind
  | .location => p.location == q.location
  | .install => p.install == q.install
  | .attention => p.attention == q.attention
  | .isHost => p.isHost == q.isHost
  | .tokenHash => p.tokenHash == q.tokenHash
  | .removedAt => p.removedAt == q.removedAt
  | .joinedAt => p.joinedAt == q.joinedAt
  | .lastSeenAt => p.lastSeenAt == q.lastSeenAt
  | .supportedModes =>
      sortModes (p.supportedModes.getD []) == sortModes (q.supportedModes.getD [])
  | .requestedMode =>
      p.requestedMode.getD .foregroundAttended == q.requestedMode.getD .foregroundAttended
  | .effectiveMode => p.effectiveMode == q.effectiveMode
  | .pollCadenceS => p.pollCadenceS == q.pollCadenceS
  | .safetyWakeS => p.safetyWakeS == q.safetyWakeS
  | .forumReviewChannel => p.forumReviewChannel == q.forumReviewChannel
  | .sessionId => p.sessionId == q.sessionId

theorem Field.agree_refl (p : Participant) (f : Field) : f.agree p p = true := by
  cases f <;> exact beq_self_eq_true _

theorem Field.agree_comm (p q : Participant) (f : Field) : f.agree p q = f.agree q p := by
  cases f <;> exact BEq.comm

/-- A record that agrees with another may stand for it. -/
theorem Field.agree_congr {p q r : Participant} {f : Field} (h : f.agree p q = true) :
    f.agree q r = f.agree p r := by
  cases f <;> simp only [agree, beq_iff_eq] at h ⊢ <;> rw [h]

/-- The body of the request gives the field. -/
def Request.gives (req : Request) (name : String) : Bool :=
  match req.body with
  | .ok body => (body.field? name).isSome
  | .error _ => false

/-- The fields a request sets itself, the negotiated mode among them; it carries the
others over from the record it authenticated with. -/
def RequestKind.sets (req : Request) (auth : Participant) : RequestKind → Field → Bool
  | _, .lastSeenAt => true
  | .getWait, .attention => true
  | .postJoin, .attention => true
  | .postLeave, .attention => true
  | .postProfile, .displayName => true
  | .postProfile, .effectiveMode => true
  | .postJoin, .effectiveMode => true
  | .postProfile, .supportedModes => req.gives "supported_modes"
  | .postJoin, .supportedModes => req.gives "supported_modes"
  | .postProfile, .pollCadenceS => req.gives "poll_cadence_s"
  | .postJoin, .pollCadenceS => req.gives "poll_cadence_s"
  | .postProfile, .safetyWakeS => req.gives "safety_wake_s"
  | .postJoin, .safetyWakeS => req.gives "safety_wake_s"
  | .postJoin, .sessionId => req.gives "session_id"
  | .postJoin, .joinedAt => auth.joinedAt.isNone
  | _, _ => false

/-- The record that a request stores, next to the one it authenticated with. -/
def RequestKind.Stores (kind : RequestKind) (req : Request) (auth new : Participant) : Prop :=
  new.aliasName = auth.aliasName ∧
    ∀ f, kind.sets req auth f = false → Field.agree auth new f = true

section Stores

variable {req : Request} {auth : Participant} {kind : RequestKind}

theorem stores_touch (attention : ParticipantAttention) (now : Nat)
    (h : kind.sets req auth .attention = false → attention = auth.attention) :
    kind.Stores req auth { auth with attention, lastSeenAt := now } := by
  refine ⟨rfl, fun f hf => ?_⟩
  cases f with
  | attention => simp [Field.agree, h hf]
  | lastSeenAt => simp [RequestKind.sets] at hf
  | _ => exact beq_self_eq_true _

theorem sortModes_idem (modes : List AttentionMode) :
    sortModes (sortModes modes) = sortModes modes := by
  simp only [sortModes]
  refine List.filter_congr fun mode hmode => ?_
  simp [hmode]

/-- What the body does not give is not declared. -/
theorem parseAttentionDeclaration_absent {body : Json} {declared : AttentionDeclaration}
    (h : parseAttentionDeclaration body = .ok declared) :
    (body.field? "supported_modes" = none → declared.supportedModes = none) ∧
    (body.field? "poll_cadence_s" = none → declared.pollCadenceS = none) ∧
    (body.field? "safety_wake_s" = none → declared.safetyWakeS = none) := by
  unfold parseAttentionDeclaration at h
  cases hmodes : parseSupportedModes (body.field? "supported_modes") with
  | error e => simp [hmodes, bind, Except.bind] at h
  | ok modes =>
    cases hpoll : parseCadence "poll_cadence_s" (body.field? "poll_cadence_s") with
    | error e => simp [hmodes, hpoll, bind, Except.bind] at h
    | ok poll =>
      cases hwake : parseCadence "safety_wake_s" (body.field? "safety_wake_s") with
      | error e => simp [hmodes, hpoll, hwake, bind, Except.bind] at h
      | ok wake =>
        obtain rfl : (⟨modes, poll, wake⟩ : AttentionDeclaration) = declared := by
          simpa [hmodes, hpoll, hwake, bind, Except.bind, pure, Except.pure] using h
        refine ⟨fun habsent => ?_, fun habsent => ?_, fun habsent => ?_⟩
        · rw [habsent] at hmodes
          exact (Except.ok.inj hmodes).symm
        · rw [habsent] at hpoll
          exact (Except.ok.inj hpoll).symm
        · rw [habsent] at hwake
          exact (Except.ok.inj hwake).symm

theorem gives_of_body {body : Json} (hbody : req.body = .ok body) (name : String) :
    req.gives name = (body.field? name).isSome := by
  rw [Request.gives, hbody]

/-- Declared and negotiated attention leaves the other fields, and of its own those that
the body does not give. -/
theorem agree_negotiated {p : Participant} {body : Json} {declared : AttentionDeclaration}
    (hbody : req.body = .ok body) (hdeclared : parseAttentionDeclaration body = .ok declared)
    {f : Field} (hmodes : f = .supportedModes → req.gives "supported_modes" = false)
    (hpoll : f = .pollCadenceS → req.gives "poll_cadence_s" = false)
    (hwake : f = .safetyWakeS → req.gives "safety_wake_s" = false)
    (heffective : f ≠ .effectiveMode) :
    Field.agree p (negotiateParticipantAttention (declared.apply p)) f = true := by
  obtain ⟨habsent, habsent', habsent''⟩ := parseAttentionDeclaration_absent hdeclared
  cases f with
  | supportedModes =>
      have hnone := habsent (by simpa [gives_of_body hbody] using hmodes rfl)
      simp [Field.agree, negotiateParticipantAttention, AttentionDeclaration.apply, hnone,
        sortModes_idem]
  | pollCadenceS =>
      have hnone := habsent' (by simpa [gives_of_body hbody] using hpoll rfl)
      simp [Field.agree, negotiateParticipantAttention, AttentionDeclaration.apply, hnone]
  | safetyWakeS =>
      have hnone := habsent'' (by simpa [gives_of_body hbody] using hwake rfl)
      simp [Field.agree, negotiateParticipantAttention, AttentionDeclaration.apply, hnone]
  | effectiveMode => exact absurd rfl heffective
  | requestedMode =>
      simp [Field.agree, negotiateParticipantAttention, AttentionDeclaration.apply]
  | _ => exact beq_self_eq_true _

theorem stores_profile {body : Json} {declared : AttentionDeclaration} {displayName : String}
    {now : Nat} (hbody : req.body = .ok body)
    (hdeclared : parseAttentionDeclaration body = .ok declared) :
    RequestKind.postProfile.Stores req auth (profileRecord auth declared displayName now) := by
  refine ⟨rfl, fun f hf => ?_⟩
  have hset : Field.agree auth
      { auth with displayName := some displayName, lastSeenAt := now } f = true := by
    cases f with
    | displayName => simp [RequestKind.sets] at hf
    | lastSeenAt => simp [RequestKind.sets] at hf
    | _ => exact beq_self_eq_true _
  rw [← Field.agree_congr hset]
  refine agree_negotiated hbody hdeclared ?_ ?_ ?_ ?_
  · rintro rfl
    exact hf
  · rintro rfl
    exact hf
  · rintro rfl
    exact hf
  · rintro rfl
    simp [RequestKind.sets] at hf

theorem stores_join {body : Json} {declared : AttentionDeclaration}
    {sessionId : Option String} {now : Nat} (hactive : auth.removedAt = none)
    (hbody : req.body = .ok body) (hdeclared : parseAttentionDeclaration body = .ok declared)
    (hsession : parseSessionId (body.field? "session_id") = .ok sessionId) :
    RequestKind.postJoin.Stores req auth (joinRecord auth declared sessionId now) := by
  refine ⟨rfl, fun f hf => ?_⟩
  have hset : Field.agree auth
      { auth with
        removedAt := none
        attention := .attending
        joinedAt := auth.joinedAt.or (some now)
        lastSeenAt := now
        sessionId := sessionId.or auth.sessionId } f = true := by
    cases f with
    | attention => simp [RequestKind.sets] at hf
    | lastSeenAt => simp [RequestKind.sets] at hf
    | removedAt => simp [Field.agree, hactive]
    | joinedAt =>
        obtain ⟨joinedAt, hjoined⟩ := Option.isSome_iff_exists.mp
          (by simpa [RequestKind.sets] using hf)
        simp [Field.agree, hjoined]
    | sessionId =>
        have habsent : body.field? "session_id" = none := by
          simpa [RequestKind.sets, gives_of_body hbody] using hf
        rw [habsent] at hsession
        obtain rfl := Except.ok.inj hsession
        simp [Field.agree]
    | _ => exact beq_self_eq_true _
  rw [← Field.agree_congr hset]
  refine agree_negotiated hbody hdeclared ?_ ?_ ?_ ?_
  · rintro rfl
    exact hf
  · rintro rfl
    exact hf
  · rintro rfl
    exact hf
  · rintro rfl
    simp [RequestKind.sets] at hf

end Stores

/-! ## What the history says -/

/-- The roster that was last written; at first, the one the run started with. -/
def committed (roster : Stored (List Participant)) :
    List (Event RoomStep) → Stored (List Participant)
  | [] => roster
  | .ran _ (.wroteParticipants participants) :: _ => .whole participants
  | _ :: es => committed roster es

/-- What caller `t` saw at its first look at the roster. -/
def firstRead (t : Nat) : List (Event RoomStep) → Option (Stored (List Participant))
  | [] => none
  | .ran u (.readParticipants found) :: es =>
      (firstRead t es).or (if u = t then some found else none)
  | _ :: es => firstRead t es

/-- The record that request `t` authenticated with. -/
def authenticated (o : ServerOptions) (req : Request) (t : Nat)
    (es : List (Event RoomStep)) : Option Participant :=
  match req.token, firstRead t es with
  | some token, some (.whole participants) => findByToken o.hashToken token participants
  | _, _ => none

def recordOf (aliasName : String) (participants : List Participant) : Option Participant :=
  participants.find? fun p => p.aliasName == aliasName

/-- Of the roster `before`, the roster `after` loses a record of someone else, or a field
that differs from what the request authenticated with and that it does not set. -/
def loses (kind : RequestKind) (req : Request) (auth : Participant)
    (before after : List Participant) : Bool :=
  (before.any fun p => p.aliasName != auth.aliasName && !after.contains p) ||
    match recordOf auth.aliasName before with
    | none => false
    | some current =>
        match recordOf auth.aliasName after with
        | none => true
        | some new => Field.all.any fun f =>
            !kind.sets req auth f && !Field.agree auth current f && !Field.agree current new f

/-- In the roster `before`, a field that the request does not set differs from what it
authenticated with. -/
def outdated (kind : RequestKind) (req : Request) (auth : Participant)
    (before : List Participant) : Bool :=
  match recordOf auth.aliasName before with
  | none => false
  | some current => Field.all.any fun f =>
      !kind.sets req auth f && !Field.agree auth current f

/-- Some roster write of a request is as `judge` says of its kind, the request, the
authenticated record and the rosters before and after. -/
def someRequestWrote (o : ServerOptions) (calls : List ServerCall)
    (roster : Stored (List Participant))
    (judge : RequestKind → Request → Participant → List Participant → List Participant → Bool) :
    List (Event RoomStep) → Bool
  | [] => false
  | .ran t (.wroteParticipants after) :: es =>
      (match calls[t]?, committed roster es with
        | some (.request kind req), .whole before =>
            (authenticated o req t es).any fun auth => judge kind req auth before after
        | _, _ => false) || someRequestWrote o calls roster judge es
  | _ :: es => someRequestWrote o calls roster judge es

/-- A request's write lost what another writer had committed. -/
def lostUpdate (o : ServerOptions) (calls : List ServerCall)
    (roster : Stored (List Participant)) : List (Event RoomStep) → Bool :=
  someRequestWrote o calls roster loses

/-- A request wrote although a field that it does not set had changed since it
authenticated. -/
def wroteOutdated (o : ServerOptions) (calls : List ServerCall)
    (roster : Stored (List Participant)) : List (Event RoomStep) → Bool :=
  someRequestWrote o calls roster fun kind req auth before _ => outdated kind req auth before

/-! ## One write -/

theorem upsertRecord_cons (p : Participant) (ps : List Participant) (new : Participant) :
    upsertRecord (p :: ps) new =
      if p.aliasName = new.aliasName then new :: ps else p :: upsertRecord ps new := by
  unfold upsertRecord
  rw [List.findIdx?_cons]
  by_cases hp : p.aliasName = new.aliasName
  · simp [hp]
  · simp only [hp, beq_iff_eq, if_false]
    cases ps.findIdx? fun current => current.aliasName == new.aliasName with
    | none => rfl
    | some i => rfl

theorem recordOf_upsertRecord (participants : List Participant) (new : Participant) :
    recordOf new.aliasName (upsertRecord participants new) = some new := by
  induction participants with
  | nil => simp [upsertRecord, recordOf]
  | cons p ps ih =>
      rw [upsertRecord_cons]
      by_cases hp : p.aliasName = new.aliasName
      · simp [hp, recordOf]
      · simp only [hp, if_false]
        rw [recordOf, List.find?_cons_of_neg (by simpa using hp)]
        exact ih

theorem mem_upsertRecord {participants : List Participant} {new p : Participant}
    (hp : p ∈ participants) (hne : p.aliasName ≠ new.aliasName) :
    p ∈ upsertRecord participants new := by
  induction participants with
  | nil => cases hp
  | cons q ps ih =>
      rw [upsertRecord_cons]
      rcases List.mem_cons.mp hp with rfl | hp
      · simp [hne]
      · split
        · exact List.mem_cons_of_mem _ hp
        · exact List.mem_cons_of_mem _ (ih hp)

/-- Storing the record again loses exactly the fields that it carries over outdated. -/
theorem loses_upsertRecord {kind : RequestKind} {req : Request} {auth new : Participant}
    (h : kind.Stores req auth new) (before : List Participant) :
    loses kind req auth before (upsertRecord before new) = outdated kind req auth before := by
  have hothers : (before.any fun p => p.aliasName != auth.aliasName &&
      !(upsertRecord before new).contains p) = false := by
    rw [List.any_eq_false]
    intro p hp
    by_cases hne : p.aliasName = auth.aliasName
    · simp [hne]
    · have hmem := mem_upsertRecord hp (h.1 ▸ hne)
      simp [hmem]
  rw [loses, hothers, Bool.false_or, outdated]
  cases recordOf auth.aliasName before with
  | none => rfl
  | some current =>
      have hnew : recordOf auth.aliasName (upsertRecord before new) = some new :=
        h.1 ▸ recordOf_upsertRecord before new
      have hfield (f : Field) : (!kind.sets req auth f && !Field.agree auth current f &&
          !Field.agree current new f) =
          (!kind.sets req auth f && !Field.agree auth current f) := by
        cases hset : kind.sets req auth f with
        | true => rfl
        | false =>
            cases hagree : Field.agree auth current f with
            | true => rfl
            | false =>
                have hkept := h.2 f hset
                rw [Field.agree_comm, Field.agree_congr hkept, hagree]
                rfl
      simp only [hnew, hfield]

/-! ## The invariant -/

theorem committed_noWrite {e : Event RoomStep} (he : isWriteEvent e = false)
    (roster : Stored (List Participant)) (es : List (Event RoomStep)) :
    committed roster (e :: es) = committed roster es := by
  rcases e with ⟨t, l⟩ | ⟨t, l⟩ | p
  · cases l <;> first | rfl | cases he
  · rfl
  · rfl

theorem someRequestWrote_noWrite {e : Event RoomStep} (he : isWriteEvent e = false)
    (o : ServerOptions) (calls : List ServerCall) (roster : Stored (List Participant))
    (judge : RequestKind → Request → Participant → List Participant → List Participant → Bool)
    (es : List (Event RoomStep)) :
    someRequestWrote o calls roster judge (e :: es) =
      someRequestWrote o calls roster judge es := by
  rcases e with ⟨t, l⟩ | ⟨t, l⟩ | p
  · cases l <;> first | rfl | cases he
  · rfl
  · rfl

/-- The roster is the one last committed, and updates were lost by outdated records. -/
structure RosterInv (o : ServerOptions) (calls : List ServerCall)
    (roster : Stored (List Participant)) (x : Snapshot (World ServerMemory) RoomStep) :
    Prop where
  stored : x.world.files.participants = committed roster x.trace
  lost : lostUpdate o calls roster x.trace = wroteOutdated o calls roster x.trace

section Calls

variable {o : ServerOptions} {calls : List ServerCall} {roster : Stored (List Participant)}
  {process : Nat → Nat} {t : Nat}

theorem rosterInv_noWrite : KeptWithoutWrites (RosterInv o calls roster) := by
  rintro x e w ⟨hstored, hlost⟩ he hfiles
  refine ⟨?_, ?_⟩
  · rw [Snapshot.record_world, Snapshot.record_trace, hfiles, committed_noWrite he]
    exact hstored
  · rw [Snapshot.record_trace, lostUpdate, wroteOutdated, someRequestWrote_noWrite he,
      someRequestWrote_noWrite he]
    exact hlost

theorem rosterInv_status : KeptByStatus (RosterInv o calls roster) where
  noWrite := rosterInv_noWrite
  state := fun _ _ _ _ _ hx _ _ _ _ => ⟨hx.stored, hx.lost⟩
  system := fun _ _ _ hx _ _ _ => ⟨hx.stored, hx.lost⟩

/-- A write of somebody who is not a request. -/
theorem rosterInv_host {x : Snapshot (World ServerMemory) RoomStep}
    (hx : RosterInv o calls roster x) (hcall : ∀ kind req, calls[t]? ≠ some (.request kind req))
    (after : List Participant) :
    RosterInv o calls roster (x.record (.ran t (.wroteParticipants after)) { x.world with
      files := { x.world.files with participants := .whole after } }) := by
  refine ⟨rfl, ?_⟩
  have hskip (judge : RequestKind → Request → Participant → List Participant →
      List Participant → Bool) :
      someRequestWrote o calls roster judge (.ran t (.wroteParticipants after) :: x.trace) =
        someRequestWrote o calls roster judge x.trace := by
    rw [someRequestWrote]
    split
    · rename_i hc _
      exact absurd hc (hcall _ _)
    · rfl
  rw [Snapshot.record_trace, lostUpdate, wroteOutdated, hskip, hskip]
  exact hx.lost

/-- The write of a request that authenticated. -/
theorem rosterInv_request {x : Snapshot (World ServerMemory) RoomStep}
    (hx : RosterInv o calls roster x) {kind : RequestKind} {req : Request}
    (hcall : calls[t]? = some (.request kind req)) {auth new : Participant}
    (hauth : authenticated o req t x.trace = some auth) (hnew : kind.Stores req auth new)
    {before : List Participant} (hbefore : x.world.files.participants = .whole before) :
    RosterInv o calls roster
      (x.record (.ran t (.wroteParticipants (upsertRecord before new))) { x.world with
        files := { x.world.files with participants := .whole (upsertRecord before new) } }) := by
  refine ⟨rfl, ?_⟩
  have hcommitted : committed roster x.trace = .whole before := hx.stored.symm.trans hbefore
  have hstep (judge : RequestKind → Request → Participant → List Participant →
      List Participant → Bool) :
      someRequestWrote o calls roster judge
          (.ran t (.wroteParticipants (upsertRecord before new)) :: x.trace) =
        (judge kind req auth before (upsertRecord before new) ||
          someRequestWrote o calls roster judge x.trace) := by
    simp only [someRequestWrote, hcall, hcommitted, hauth, Option.any_some]
  rw [Snapshot.record_trace, lostUpdate, wroteOutdated, hstep, hstep,
    loses_upsertRecord hnew]
  exact congrArg _ hx.lost

/-! ## Requests -/

theorem firstRead_cons {e : Event RoomStep} {es : List (Event RoomStep)}
    {found : Stored (List Participant)} (h : firstRead t es = some found) :
    firstRead t (e :: es) = some found := by
  rcases e with ⟨u, l⟩ | ⟨u, l⟩ | p
  · cases l with
    | readParticipants found' => simp [firstRead, h]
    | _ => exact h
  · exact h
  · exact h

theorem firstRead_foreign {e : Event RoomStep}
    (he : (faultySystem ServerMemory process).Foreign t e) (es : List (Event RoomStep)) :
    firstRead t (e :: es) = firstRead t es := by
  rcases e with ⟨u, l⟩ | ⟨u, l⟩ | p
  · cases l with
    | readParticipants found =>
        have hu : u ≠ t := he
        simp [firstRead, hu]
    | _ => rfl
  · rfl
  · rfl

/-- What a request authenticated with is settled once and for all. -/
theorem authenticated_cons {req : Request} {auth : Participant} {es : List (Event RoomStep)}
    (h : authenticated o req t es = some auth) (e : Event RoomStep) :
    authenticated o req t (e :: es) = some auth := by
  unfold authenticated at h ⊢
  split at h
  · rename_i token participants htoken hread
    rw [firstRead_cons hread]
    simp only [htoken]
    exact h
  · cases h

/-- Authentication is the first look at the roster. -/
theorem requireParticipant_safe {I : Snapshot (World ServerMemory) RoomStep → Prop}
    (hI : KeptQuietly I) (req : Request) (allowRemoved : Bool) :
    LockSafe process I t
      (fun auth x => (allowRemoved = false → auth.removedAt = none) ∧
        authenticated o req t x.trace = some auth)
      (fun _ _ => True) (requireParticipant o req allowRemoved)
      fun x => firstRead t x.trace = none := by
  unfold requireParticipant
  split
  · exact fun _ _ _ => trivial
  · rename_i token htoken
    refine Contract.Safe.bind (R := fun participants x =>
      firstRead t x.trace = some (.whole participants)) ?_ fun participants => ?_
    · refine Contract.Safe.action ?_ ?_ ?_ (fun _ _ _ _ _ _ _ => trivial) ?_
      · intro e x w hf _ _ _ h
        rw [Snapshot.record_trace, firstRead_foreign hf]
        exact h
      · exact fun x hx _ _ _ =>
          keeps_quietly hI hx ⟨rfl, rfl, rfl, le_refl _⟩ fun _ _ hu => hu
      · intro x participants _ h _ _ hread
        rw [Snapshot.record_trace, Stored.eq_whole_of_read hread]
        simp [firstRead, h]
      · exact fun x e hx _ _ _ => ⟨keeps_failed hI hx t _, trivial⟩
    · split
      · exact fun _ _ _ => trivial
      · rename_i auth hfound
        dsimp only
        split
        · exact fun _ _ _ => trivial
        · rename_i hremoved
          refine .done fun x _ h => ⟨fun hallow => ?_, ?_⟩
          · simpa [hallow] using hremoved
          · simp only [authenticated, htoken, h]
            exact hfound

/-- Requests may store what they carried over. -/
theorem roster_rules {kind : RequestKind} {req : Request}
    (hcall : calls[t]? = some (.request kind req)) :
    RequestRules process (RosterInv o calls roster) t o req
      (fun x => firstRead t x.trace = none)
      (fun auth x => authenticated o req t x.trace = some auth) (kind.Stores req) := by
  have hstable (auth : Participant) : LockStable process (RosterInv o calls roster) t
      fun x => authenticated o req t x.trace = some auth :=
    fun e x w _ _ _ _ h => authenticated_cons h e
  have hown (auth : Participant) : KeptInMemory t
      fun x => authenticated o req t x.trace = some auth :=
    fun x w l _ _ h _ _ => ⟨authenticated_cons h _, authenticated_cons h _⟩
  have hpast (auth : Participant) :
      Enduring t fun es => authenticated o req t es = some auth :=
    fun e es _ _ h => authenticated_cons h e
  exact
    { lasting := fun auth x e w h => authenticated_cons h e
      authenticate := requireParticipant_safe rosterInv_noWrite.quietly req
      upsert := fun auth new hnew =>
        upsertParticipant_safe rosterInv_noWrite.quietly (hstable auth) (hpast auth)
          (fun _ _ h => authenticated_cons h _) fun x ps hx hp =>
            rosterInv_request hx hcall hp.past hnew hp.files
      join := fun auth new staleAfterMs sessionId hnew =>
        joinParticipant_safe rosterInv_noWrite.quietly (hstable auth) (hown auth) (hpast auth)
          (fun _ _ h => authenticated_cons h _) (fun x ps hx hp =>
            rosterInv_request hx hcall hp.past hnew hp.files) staleAfterMs sessionId }

theorem handler_roster {kind : RequestKind} {req : Request}
    (hcall : calls[t]? = some (.request kind req)) :
    LockSafe process (RosterInv o calls roster) t (fun _ _ => True) (fun _ _ => True)
      (kind.handler t o req) fun x => firstRead t x.trace = none := by
  have status : KeptByStatus (RosterInv o calls roster) := rosterInv_status
  have room := status.room
  have rules : RequestRules process (RosterInv o calls roster) t o req _ _ _ :=
    roster_rules hcall
  cases kind with
  | getMessages =>
      exact getMessages_safe room rules fun auth now => stores_touch auth.attention now
        fun _ => rfl
  | postMessage =>
      have hkept : LockStable process (RosterInv o calls roster) t fun _ => True :=
        .of_const True
      refine postMessage_safe room rules
        (fun auth now => stores_touch auth.attention now fun _ => rfl) hkept (true_own _)
        (requireRoomOpen_kept room)
        (fun auth => pauseLoop_kept status.noWrite room auth) fun options => ?_
      exact appendMessageResult_safe room hkept (true_own _) (anyPast_enduring t)
        (fun _ _ _ => trivial) (fun x m hx _ _ => ⟨hx.stored, hx.lost⟩) options
  | getWait =>
      exact getWait_safe room rules fun auth now => stores_touch .attending now
        fun hset => (nomatch hset)
  | postProfile =>
      exact postProfile_safe room rules fun auth body declared displayName now hbody
        hdeclared => stores_profile hbody hdeclared
  | postJoin =>
      exact postJoin_safe room rules fun auth body declared sessionId now hactive hbody
        hdeclared hsession => stores_join hactive hbody hdeclared hsession
  | postLeave =>
      exact postLeave_safe room rules fun auth now => stores_touch .away now
        fun hset => (nomatch hset)
  | postClose => exact postClose_safe room rules
  | postLoopGuard => exact postLoopGuard_safe room rules status.loopGuard
  | postSession =>
      exact postSession_safe room rules (.of_const True) (true_own _)
        (requireRoomOpen_kept room) status.start (status.finish _)

theorem call_roster {call : ServerCall} (hcall : calls[t]? = some call) :
    LockSafe process (RosterInv o calls roster) t (fun _ _ => True) (fun _ _ => True)
      (call.prog o t) fun x => firstRead t x.trace = none := by
  have hhost (hnot : ∀ kind req, calls[t]? ≠ some (.request kind req)) (new : Participant) :
      Kept process (RosterInv o calls roster) t (upsertParticipant t new) :=
    upsertParticipant_safe rosterInv_noWrite.quietly (.of_const True) (anyPast_enduring t)
      (fun _ _ _ => trivial) fun x ps hx _ => rosterInv_host hx hnot _
  cases call with
  | request kind req =>
      exact (handler_roster hcall).bind fun _ => .done fun _ _ _ => trivial
  | autoContinue cycle =>
      have hcomplete : Kept process (RosterInv o calls roster) t
          (completeAutoContinue t o cycle) :=
        completeAutoContinue_any rosterInv_noWrite rosterInv_status.room
          (appendApproval_any rosterInv_status.room fun _ _ hx _ _ =>
            ⟨hx.stored, hx.lost⟩) cycle
      exact (hcomplete.pre fun _ _ _ => trivial).bind fun _ => .done fun _ _ _ => trivial
  | roomInvite options =>
      have hnot (kind : RequestKind) (req : Request) :
          calls[t]? ≠ some (.request kind req) := by simp [hcall]
      exact ((roomInvite_kept rosterInv_noWrite.quietly (hhost hnot) options).pre
        fun _ _ _ => trivial).bind fun _ => .done fun _ _ _ => trivial
  | hostWrite participant =>
      have hnot (kind : RequestKind) (req : Request) :
          calls[t]? ≠ some (.request kind req) := by simp [hcall]
      exact ((hhost hnot participant).pre fun _ _ _ => trivial).bind fun _ =>
        .done fun _ _ _ => trivial
  | timePasses ms => exact (timePasses_kept rosterInv_noWrite.quietly ms).pre fun _ _ _ => trivial

end Calls

/-! ## Runs -/

theorem serving_roster {process : Nat → Nat} {o : ServerOptions} {files : RoomFiles}
    {clock : Nat} {memory : ServerMemory} {calls : List ServerCall} :
    (lockContract process (RosterInv o calls files.participants)).Holds
      (faultySystem ServerMemory process) (serving o files clock memory calls) := by
  have hinv : RosterInv o calls files.participants
      (serving o files clock memory calls).snap := ⟨rfl, rfl⟩
  refine ⟨hinv, fun t p hp => ?_⟩
  obtain ⟨call, hcall, rfl⟩ := thread_serving hp
  exact .of_safe (call_roster hcall) hinv rfl

/-- In every run, no request's roster write loses what another writer committed since
the request authenticated if and only if no request writes while the stored record
differs from the authenticated one in a field that the request does not set. -/
theorem not_lostUpdate_iff (process : Nat → Nat) (o : ServerOptions) (files : RoomFiles)
    (clock : Nat) (memory : ServerMemory) (calls : List ServerCall)
    (c : Config (World ServerMemory) RoomStep Failure (Option Reply))
    (h : (faultySystem ServerMemory process).Reachable
      (serving o files clock memory calls) c) :
    lostUpdate o calls files.participants c.snap.trace = false ↔
      wroteOutdated o calls files.participants c.snap.trace = false := by
  have hinv := (Contract.sound serving_roster
    (lockContract_crashSafe rosterInv_noWrite.quietly) h).1
  rw [hinv.lost]

/-- An agent polls with the token `bb`; the host invites it again with `cc`. -/
def pollAndInvite : List ServerCall :=
  [.request .getMessages ⟨some "bb", .ok .null, []⟩,
   .roomInvite ⟨"agent", .agent, "cc", none, none⟩]

/-- The invitation falls between the poll's authentication and its roster write. -/
def inviteOvertakes : List (Move Failure) :=
  [.run 0] ++ List.replicate 5 (.run 1) ++ List.replicate 5 (.run 0)

/-- The poll is through before the invitation begins, by the general theorem. -/
theorem not_lostUpdate_iff_pollFirst :
    ∃ c, (faultySystem ServerMemory id).Reachable
        (serving smallServer openRoom 0 .initial pollAndInvite) c ∧
      c.snap.world.files.participants.read.toOption.map (·.map (·.tokenHash)) =
        some [some "aa", some "cc"] ∧
      (lostUpdate smallServer pollAndInvite openRoom.participants c.snap.trace = false ↔
        wroteOutdated smallServer pollAndInvite openRoom.participants c.snap.trace =
          false) := by
  have hrun : ((faultySystem ServerMemory id).replay
      (serving smallServer openRoom 0 .initial pollAndInvite)
      (List.replicate 7 (.run 0) ++ List.replicate 5 (.run 1))).map
      (fun c => c.snap.world.files.participants.read.toOption.map (·.map (·.tokenHash))) =
      some (some [some "aa", some "cc"]) := by decide
  obtain ⟨c, hc, hv⟩ := System.exists_reachable_of_replay hrun
  exact ⟨c, hc, hv, not_lostUpdate_iff id smallServer openRoom 0 .initial pollAndInvite c hc⟩

/-- A request can lose what another writer committed: the poll stores the token hash
again that the invitation had replaced. -/
theorem getMessages_restores_token_hash :
    ¬ ∀ (calls : List ServerCall)
        (c : Config (World ServerMemory) RoomStep Failure (Option Reply)),
      (faultySystem ServerMemory id).Reachable
        (serving smallServer openRoom 0 .initial calls) c →
      lostUpdate smallServer calls openRoom.participants c.snap.trace = false := by
  intro h
  have hrun : ((faultySystem ServerMemory id).replay
      (serving smallServer openRoom 0 .initial pollAndInvite) inviteOvertakes).map
      (fun c => lostUpdate smallServer pollAndInvite openRoom.participants c.snap.trace) =
      some true := by decide
  obtain ⟨c, hc, hv⟩ := System.exists_reachable_of_replay hrun
  exact Bool.false_ne_true ((h pollAndInvite c hc).symm.trans hv)

end AgentGather.Server
