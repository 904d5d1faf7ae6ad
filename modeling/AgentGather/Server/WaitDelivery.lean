import AgentGather.Server.WaitAnswers
import AgentGather.Server.WaitHub
import AgentGather.Server.Waiting

/-!
# What a waiting client receives

A client that goes on with every wait from the cursor of the last answer receives what was
appended behind its first cursor, in order and once, however its waits, the appends, the
notifications and the timeouts are interleaved.
-/

namespace AgentGather.Server

open AgentGather.Library AgentGather.Protocol AgentGather.Storage

/-! ## Cursors -/

/-- What stands behind the cursor of an answer is what the answer has left over. -/
theorem after_nextCursor {seen rest : List Message}
    (hinc : Cursor.Increasing Message.id (seen ++ rest)) (sinceId : Nat) :
    Cursor.after Message.id (seen ++ rest) sinceId =
      Cursor.after Message.id seen sinceId ++
        Cursor.after Message.id (seen ++ rest)
          (nextCursor sinceId (Cursor.after Message.id seen sinceId)) := by
  have hsplit : Cursor.after Message.id (seen ++ rest) sinceId =
      Cursor.after Message.id seen sinceId ++ Cursor.after Message.id rest sinceId :=
    List.filter_append ..
  rcases List.eq_nil_or_concat (Cursor.after Message.id seen sinceId) with hnone | ⟨u, m, hlast⟩
  · rw [hnone, List.nil_append, nextCursor, List.getLast?_nil, Option.map_none, Option.getD_none]
  · have hbehind := Cursor.after_of_append hinc (u := u) (x := m)
      (v := Cursor.after Message.id rest sinceId) (by
        rw [hsplit, hlast, List.concat_eq_append, List.append_assoc]
        rfl)
    rw [hsplit, hlast, nextCursor, List.concat_eq_append, List.getLast?_concat, Option.map_some,
      Option.getD_some, hbehind]

/-! ## Looks at the log -/

section Looks

variable {initial : List Message} {t : Nat}

theorem isPrefix_seenLog (es : List (Event RoomStep)) :
    seenLog initial t es <+: logged initial es := by
  induction es with
  | nil => exact List.nil_prefix
  | cons e es ih =>
      have hrest := ih.trans (isPrefix_logged initial (List.suffix_cons e es))
      cases e with
      | ran u l =>
          rw [seenLog]
          split
          · exact isPrefix_logged initial (List.suffix_cons _ es)
          · exact hrest
      | failed u l => exact hrest
      | crashed p => exact hrest

/-- A look at the log sees what was appended before it. -/
theorem logged_prefix_seenLog {later es : List (Event RoomStep)}
    (h : .ran t .readMessages ∈ later) :
    logged initial es <+: seenLog initial t (later ++ es) := by
  induction later with
  | nil => cases h
  | cons e later ih =>
      rcases List.mem_cons.mp h with rfl | h
      · rw [List.cons_append, seenLog, if_pos ⟨rfl, rfl⟩]
        exact isPrefix_logged initial (List.suffix_append later es)
      · have hrest := ih h
        cases e with
        | ran u l =>
            rw [List.cons_append, seenLog]
            split
            · exact isPrefix_logged initial (List.suffix_append later es)
            · exact hrest
        | failed u l => exact hrest
        | crashed p => exact hrest

/-- A wait that is past its first stage has looked at the log. -/
theorem looked_of_stage {es : List (Event RoomStep)} {s : WaitStage}
    (h : waitMonitor.state .fresh t es = some s) (hs : s ≠ .fresh) :
    .ran t .readMessages ∈ es := by
  induction es generalizing s with
  | nil =>
      cases h
      exact (hs rfl).elim
  | cons e es ih =>
      cases e with
      | ran u l =>
          rw [Monitor.state] at h
          split at h
          · rename_i hu
            obtain ⟨s', hs', hstep⟩ := Option.bind_eq_some_iff.mp h
            by_cases hfresh : s' = .fresh
            · subst hfresh
              cases hstep
              by_cases hread : l = .readMessages
              · rw [hu, hread]
                exact List.mem_cons_self
              · refine (hs ?_).elim
                cases l <;> first | rfl | exact (hread rfl).elim
            · exact List.mem_cons_of_mem _ (ih hs' hfresh)
          · exact List.mem_cons_of_mem _ (ih h hs)
      | failed u l =>
          rw [Monitor.state] at h
          split at h
          · obtain ⟨s', hs', hstep⟩ := Option.map_eq_some_iff.mp h
            cases hstep
            exact List.mem_cons_of_mem _ (ih hs' hs)
          · exact List.mem_cons_of_mem _ (ih h hs)
      | crashed p => exact List.mem_cons_of_mem _ (ih h hs)

end Looks

/-! ## Answers -/

section Answers

variable {G : World ServerMemory → Prop} {t : Nat} {o : ServerOptions} {req : Request}
  {s : WaitStage}

/-- The answer stops at the cursor it was asked for, or it comes of a look at the log. -/
def Stops (sinceId : Nat) (r : WaitResponse) : Prop :=
  (r.roomStatus = .closed ∨ r.removed = true) ∧ r.messages = [] ∧ r.nextSinceId = sinceId

def StopsOrLooked (sinceId : Nat) (r : WaitResponse) (s : WaitStage) : Prop :=
  Stops sinceId r ∨ r.roomStatus = .opened ∧ r.removed = false ∧ s ≠ .fresh

theorem readMessages_ne_fresh (s : WaitStage) : s.step .readMessages ≠ .fresh := by
  cases s <;> decide

theorem waits_waitSnapshot_stops (aliasName : String) (sinceId : Nat) :
    Waits G (fun found s' => match found with
        | some r => StopsOrLooked sinceId r s'
        | none => s' = s.step .readMessages)
      (waitSnapshot t o aliasName sinceId) s := by
  refine waits_closeExpired.bind fun state s' hopen => ?_
  split_ifs with hclosed
  · exact .inl ⟨.inl rfl, rfl, rfl⟩
  · have hopened : state.status = .opened := by
      cases hstatus : state.status with
      | opened => rfl
      | closed => exact (hclosed hstatus).elim
    obtain rfl := hopen hopened
    refine Monitor.Follows.bind (Q := fun _ s'' => s'' = s'.step .readMessages)
      (.action (fun w _ _ => ⟨_, rfl, fun _ _ => rfl, fun _ _ => trivial⟩) fun _ => trivial) ?_
    rintro all - rfl
    dsimp only
    split_ifs
    · rfl
    · exact .inr ⟨rfl, rfl, readMessages_ne_fresh s'⟩

/-- What a wait replies. -/
def RepliesFrom (req : Request) (reply : Reply) (s : WaitStage) : Prop :=
  ∀ r, reply = .waited r → ∃ sinceId, parseSinceId (req.param "since_id") = .ok sinceId ∧
    StopsOrLooked sinceId r s

theorem waits_waitReply_stops (auth : Participant) :
    Waits G (RepliesFrom req) (waitReply t o req auth) s := by
  refine Monitor.Follows.bind
    (Q := fun sinceId _ => parseSinceId (req.param "since_id") = .ok sinceId)
    (.ofExcept (fun sinceId hsince => hsince) fun _ _ => trivial) ?_
  intro sinceId s hsince
  dsimp only
  split
  · trivial
  split
  · refine (waits_total (fun _ _ => trivial) (closeExpiredRoomIfNeeded t o)).bind ?_
    rintro state s' - r ⟨⟩
    exact ⟨sinceId, hsince, .inl ⟨.inr rfl, rfl, rfl⟩⟩
  refine (waits_waitSnapshot_stops _ sinceId).bind fun immediate s' himmediate => ?_
  cases immediate with
  | some immediate =>
      rintro r ⟨⟩
      exact ⟨sinceId, hsince, himmediate⟩
  | none =>
      obtain rfl := himmediate
      refine waits_holdWait.bind ?_
      rintro - s' rfl
      refine (waits_waitSnapshot_stops _ sinceId).bind fun afterWait s' hafter => ?_
      cases afterWait with
      | some afterWait =>
          rintro r ⟨⟩
          exact ⟨sinceId, hsince, hafter⟩
      | none =>
          obtain rfl := hafter
          rintro r ⟨⟩
          exact ⟨sinceId, hsince, .inr ⟨rfl, rfl, readMessages_ne_fresh _⟩⟩

theorem waits_getWait_stops : Waits G (RepliesFrom req) (getWait t o req) s := by
  refine (waits_total (fun _ _ => trivial) (requireParticipant o req true)).bind
    fun auth _ _ => ?_
  dsimp only
  split
  · refine (waits_total (fun _ _ => trivial) (touchParticipant t auth .attending)).bind
      fun _ _ _ => ?_
    exact waits_waitReply_stops auth
  · exact waits_waitReply_stops auth

end Answers

/-! ## Rounds -/

section Runs

variable {process : Nat → Nat} {o : ServerOptions} {files : RoomFiles} {clock : Nat}
  {memory : ServerMemory} {calls : List ServerCall}
  {c : Config (World ServerMemory) RoomStep Failure (Option Reply)} {sinceId t : Nat}
  {req : Request} {r : WaitResponse}

/-- The stage of a wait that has returned. -/
theorem returned_stops
    (h : (faultySystem ServerMemory process).Reachable
      (serving o files clock memory calls) c)
    (hcall : calls[t]? = some (.request .getWait req))
    (hreturned : System.thread c t = some (.ret (some (.waited r)))) :
    ∃ s, waitMonitor.state .fresh t c.snap.trace = some s ∧ RepliesFrom req (.waited r) s := by
  let ends (u : Nat) (reply : Option Reply) (s : WaitStage) : Prop :=
    ∀ req r, calls[u]? = some (.request .getWait req) → reply = some r → RepliesFrom req r s
  have hstart : ∀ u p, System.thread (serving o files clock memory calls) u = some p →
      waitMonitor.Follows (fun _ => True) (ends u) (fun _ _ => True) p .fresh := by
    intro u p hp
    obtain ⟨call, hthis, rfl⟩ := thread_serving hp
    by_cases hwait : ∃ req, call = .request .getWait req
    · obtain ⟨req, rfl⟩ := hwait
      refine waits_getWait_stops.bind fun reply s hanswered => ?_
      rintro req' r hcall' ⟨⟩
      cases hthis.symm.trans hcall'
      exact hanswered
    · refine .total waitMonitor_total (fun reply s req r hcall _ => ?_) (fun _ _ => trivial) _
      exact (hwait ⟨req, Option.some.inj (hthis.symm.trans hcall)⟩).elim
  obtain ⟨s, hstate, hfollows⟩ := Monitor.sound (T := faultySystem ServerMemory process)
    (fun _ => waitMonitor) rfl (fun _ _ => trivial) hstart h t
  exact ⟨s, hstate, hfollows _ hreturned req (.waited r) hcall rfl⟩

/-- What the wait has looked at: a beginning of the log, of which it answers what is behind the
cursor. -/
structure LooksAt (c : Config (World ServerMemory) RoomStep Failure (Option Reply))
    (sinceId : Nat) (r : WaitResponse) (seen : List Message) : Prop where
  isPrefix : seen <+: c.snap.world.files.log
  messages : r.messages = Cursor.after Message.id seen sinceId
  cursor : r.nextSinceId = nextCursor sinceId r.messages

/-- The history had come to `es` before the wait began, or at least before it looked at the log
last. -/
def Precedes (t : Nat) (es : List (Event RoomStep))
    (c : Config (World ServerMemory) RoomStep Failure (Option Reply)) : Prop :=
  ∃ later, c.snap.trace = later ++ es ∧
    ((∀ e ∈ es, e.isOf t = false) ∨ .ran t .readMessages ∈ later)

theorem log_serving
    (h : (faultySystem ServerMemory process).Reachable
      (serving o files clock memory calls) c) :
    c.snap.world.files.log = logged files.log c.snap.trace :=
  (Contract.ends_sound (@serving_sees process o files clock memory calls)
    (lockContract_crashSafe logInv_noWrite.quietly)
    (fun _ reply e x w hf hx hx' hg hreturned call hcall =>
      callReturned_stable call reply e x w hf hx hx' hg (hreturned call hcall))
    (fun _ _ => .of_const True) h).1

theorem wait_looksAt
    (h : (faultySystem ServerMemory process).Reachable
      (serving o files clock memory calls) c)
    (hcall : calls[t]? = some (.request .getWait req))
    (hsince : parseSinceId (req.param "since_id") = .ok sinceId)
    (hreturned : System.thread c t = some (.ret (some (.waited r)))) :
    ∃ seen, LooksAt c sinceId r seen ∧
      (r.roomStatus = .opened → r.removed = false → ∀ es, Precedes t es c →
        logged files.log es <+: seen) := by
  have hends := Contract.ends_sound (@serving_sees process o files clock memory calls)
    (lockContract_crashSafe logInv_noWrite.quietly)
    (fun _ reply e x w hf hx hx' hg hreturned call hcall =>
      callReturned_stable call reply e x w hf hx hx' hg (hreturned call hcall))
    (fun _ _ => .of_const True) h
  have hlog := log_serving h
  obtain ⟨s, hstate, hreply⟩ := returned_stops h hcall hreturned
  obtain ⟨sinceId', hsince', hstops⟩ := hreply r rfl
  obtain rfl : sinceId = sinceId' := Except.ok.inj (hsince.symm.trans hsince')
  rcases hstops with ⟨hclosed, hmessages, hcursor⟩ | ⟨hopened, hmember, hstage⟩
  · refine ⟨[], ⟨List.nil_prefix, hmessages, ?_⟩, fun hopened hmember => ?_⟩
    · rw [hmessages, hcursor]
      rfl
    · rcases hclosed with hclosed | hremoved
      · rw [hclosed] at hopened
        cases hopened
      · rw [hremoved] at hmember
        cases hmember
  · obtain ⟨auth, -, hcontinues⟩ := hends.2 t _ hreturned _ hcall req r rfl rfl
    obtain ⟨sinceId', hsince', hseen⟩ := hcontinues r rfl hmember hopened
    obtain rfl : sinceId = sinceId' := Except.ok.inj (hsince.symm.trans hsince')
    refine ⟨seenLog files.log t c.snap.trace, ⟨?_, hseen.messages, hseen.cursor⟩, ?_⟩
    · rw [hlog]
      exact isPrefix_seenLog _
    · rintro - - es ⟨later, htrace, hbefore⟩
      rw [htrace]
      apply logged_prefix_seenLog
      rcases hbefore with hbefore | hlooked
      · have hmem := looked_of_stage hstate hstage
        rw [htrace, List.mem_append] at hmem
        refine hmem.resolve_right fun hmem => ?_
        have hother := hbefore _ hmem
        simp [Event.isOf] at hother
      · exact hlooked

/-- The answers to waits that go on, each from the cursor of the one before. -/
inductive Rounds (calls : List ServerCall)
    (c : Config (World ServerMemory) RoomStep Failure (Option Reply)) :
    Nat → List (Nat × WaitResponse) → Prop where
  | start (sinceId : Nat) : Rounds calls c sinceId []
  | next {sinceId t : Nat} {req : Request} {r : WaitResponse} {rounds : List (Nat × WaitResponse)}
      (hcall : calls[t]? = some (.request .getWait req))
      (hsince : parseSinceId (req.param "since_id") = .ok sinceId)
      (hreturned : System.thread c t = some (.ret (some (.waited r))))
      (hrest : Rounds calls c r.nextSinceId rounds) : Rounds calls c sinceId ((t, r) :: rounds)

/-- The messages of the answers, one behind the other. -/
def received (rounds : List (Nat × WaitResponse)) : List Message :=
  rounds.flatMap fun round => round.2.messages

theorem LooksAt.after_eq {seen : List Message}
    (hinc : Cursor.Increasing Message.id c.snap.world.files.log) (h : LooksAt c sinceId r seen) :
    Cursor.after Message.id c.snap.world.files.log sinceId =
      r.messages ++ Cursor.after Message.id c.snap.world.files.log r.nextSinceId := by
  obtain ⟨rest, hrest⟩ := h.isPrefix
  rw [h.cursor, h.messages, ← hrest]
  rw [← hrest] at hinc
  exact after_nextCursor hinc sinceId

/-- Nothing is received twice, out of order, or from elsewhere. -/
theorem Rounds.isPrefix {rounds : List (Nat × WaitResponse)}
    (h : (faultySystem ServerMemory process).Reachable
      (serving o files clock memory calls) c)
    (hinc : Cursor.Increasing Message.id c.snap.world.files.log)
    (hrounds : Rounds calls c sinceId rounds) :
    received rounds <+: Cursor.after Message.id c.snap.world.files.log sinceId := by
  induction hrounds with
  | start sinceId => exact List.nil_prefix
  | next hcall hsince hreturned _ ih =>
      obtain ⟨seen, hlooks, -⟩ := wait_looksAt h hcall hsince hreturned
      rw [hlooks.after_eq hinc, received, List.flatMap_cons]
      exact (List.prefix_append_right_inj _).mpr ih

/-- What an answer could see has been received, in that answer or before it. -/
theorem Rounds.complete {rounds : List (Nat × WaitResponse)}
    (h : (faultySystem ServerMemory process).Reachable
      (serving o files clock memory calls) c)
    (hinc : Cursor.Increasing Message.id c.snap.world.files.log)
    (hrounds : Rounds calls c sinceId rounds) {round : Nat × WaitResponse}
    (hround : round ∈ rounds) (hopened : round.2.roomStatus = .opened)
    (hmember : round.2.removed = false) {es : List (Event RoomStep)}
    (hes : Precedes round.1 es c) {m : Message} (hm : m ∈ logged files.log es)
    (hnew : sinceId < m.id) : m ∈ received rounds := by
  induction hrounds with
  | start sinceId => cases hround
  | @next sinceId t req r rounds hcall hsince hreturned _ ih =>
      obtain ⟨seen, hlooks, hseen⟩ := wait_looksAt h hcall hsince hreturned
      rw [received, List.flatMap_cons, List.mem_append]
      rcases List.mem_cons.mp hround with rfl | hround
      · left
        rw [hlooks.messages, Cursor.mem_after]
        exact ⟨(hseen hopened hmember es hes).subset hm, hnew⟩
      · by_cases hlater : r.nextSinceId < m.id
        · exact .inr (ih hround hlater)
        · left
          have hlog : m ∈ Cursor.after Message.id c.snap.world.files.log sinceId := by
            obtain ⟨later, htrace, -⟩ := hes
            rw [Cursor.mem_after, log_serving h, htrace]
            exact ⟨(isPrefix_logged _ (List.suffix_append later es)).subset hm, hnew⟩
          rw [hlooks.after_eq hinc, List.mem_append, Cursor.mem_after] at hlog
          exact hlog.resolve_right fun hbehind => hlater hbehind.2

end Runs

/-- The host waits twice, from the start and from the first message. -/
def hostWaitsTwice : List ServerCall :=
  [.request .getWait ⟨some "aa", .ok (.obj []), [("since_id", "0")]⟩,
    .request .getWait ⟨some "aa", .ok (.obj []), [("since_id", "1")]⟩, .timePasses 1000]

end AgentGather.Server
