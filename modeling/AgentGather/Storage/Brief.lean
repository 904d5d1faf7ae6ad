import Mathlib.Data.List.Nodup
import AgentGather.Storage.Discipline

/-!
# The brief and its version

An update writes the body to `brief.md` and then the version to `room.json`, under the
writer lock; a reader reads both files without it.  What a reader gets is one update's
exactly if the body it read is that of the update that had last written `room.json` when
it read that.
-/

namespace AgentGather.Storage

open AgentGather.Library AgentGather.Protocol

variable {μ : Type}

/-- `readFile(paths.brief)`. -/
def readBriefFile : RoomProg μ String :=
  .query (fun _ => .readBrief) fun w => w.files.brief.read

def roomBrief (state : RoomState) (body : String) : RoomBrief :=
  ⟨body, state.briefVersion, state.briefUpdatedAt, state.briefUpdatedBy⟩

/-- Both files are read at once, so in either order. -/
def readBrief (bodyFirst : Bool) : RoomProg μ RoomBrief :=
  if bodyFirst then do
    let body ← readBriefFile
    let state ← readRoomState
    return roomBrief state body
  else do
    let state ← readRoomState
    let body ← readBriefFile
    return roomBrief state body

/-- What a file holds, once it is filled. -/
def Stored.content {α : Type} : Stored α → Option α
  | .whole value => some value
  | _ => none

theorem Stored.content_of_read {α : Type} {f : Stored α} {a : α} (h : f.read = .ok a) :
    f.content = some a := by
  rw [Stored.eq_whole_of_read h]
  rfl

/-! ## What the history says -/

/-- The body that caller `t` wrote last. -/
def bodyOf (t : Nat) : List (Event RoomStep) → Option String
  | [] => none
  | .ran u (.wroteBrief body) :: es => if u = t then some body else bodyOf t es
  | _ :: es => bodyOf t es

/-- What `brief.md` holds. -/
def briefText (files : RoomFiles) : List (Event RoomStep) → Option String
  | [] => files.brief.content
  | .ran _ (.wroteBrief body) :: _ => some body
  | _ :: es => briefText files es

/-- An update that is complete: its body, and the state it wrote. -/
structure BriefCommit where
  body : Option String
  state : RoomState

/-- The updates that are complete, the latest first, down to the room as it was created. -/
def commits (files : RoomFiles) : List (Event RoomStep) → List BriefCommit
  | [] => (files.state.content.map fun state => ⟨files.brief.content, state⟩).toList
  | .ran u (.wroteState .updated state) :: es => ⟨bodyOf u es, state⟩ :: commits files es
  | _ :: es => commits files es

/-- The brief is that of one complete update. -/
def Committed (files : RoomFiles) (es : List (Event RoomStep)) (brief : RoomBrief) : Prop :=
  ∃ commit ∈ commits files es, commit.body = some brief.body ∧
    brief = roomBrief commit.state brief.body

/-- What caller `t` read of `brief.md`. -/
def textRead (files : RoomFiles) (t : Nat) : List (Event RoomStep) → Option String
  | [] => none
  | .ran u .readBrief :: es => if u = t then briefText files es else textRead files t es
  | _ :: es => textRead files t es

/-- The update that was the latest complete one when caller `t` read `room.json`. -/
def commitRead (files : RoomFiles) (t : Nat) : List (Event RoomStep) → Option BriefCommit
  | [] => none
  | .ran u (.readState _) :: es =>
      if u = t then (commits files es).head? else commitRead files t es
  | _ :: es => commitRead files t es

section Events

variable {files : RoomFiles} {t : Nat} {e : Event RoomStep} {es : List (Event RoomStep)}

theorem commits_noWrite (he : isWriteEvent e = false) :
    commits files (e :: es) = commits files es := by
  rcases e with ⟨u, l⟩ | ⟨u, l⟩ | p
  · cases l with
    | wroteState purpose s => cases he
    | _ => rfl
  · rfl
  · rfl

theorem briefText_noWrite (he : isWriteEvent e = false) :
    briefText files (e :: es) = briefText files es := by
  rcases e with ⟨u, l⟩ | ⟨u, l⟩ | p
  · cases l with
    | wroteBrief body => cases he
    | _ => rfl
  · rfl
  · rfl

theorem commits_suffix : commits files es <:+ commits files (e :: es) := by
  rcases e with ⟨u, l⟩ | ⟨u, l⟩ | p
  · cases l with
    | wroteState purpose s =>
        cases purpose <;> first | exact List.suffix_rfl | exact List.suffix_cons _ _
    | _ => exact List.suffix_rfl
  · exact List.suffix_rfl
  · exact List.suffix_rfl

/-- Steps of others change nothing that a caller has read. -/
theorem textRead_foreign (he : ∀ l, e ≠ .ran t l) :
    textRead files t (e :: es) = textRead files t es := by
  rcases e with ⟨u, l⟩ | ⟨u, l⟩ | p
  · cases l with
    | readBrief => exact if_neg fun hu => he _ (by rw [hu])
    | _ => rfl
  · rfl
  · rfl

theorem commitRead_foreign (he : ∀ l, e ≠ .ran t l) :
    commitRead files t (e :: es) = commitRead files t es := by
  rcases e with ⟨u, l⟩ | ⟨u, l⟩ | p
  · cases l with
    | readState found => exact if_neg fun hu => he _ (by rw [hu])
    | _ => rfl
  · rfl
  · rfl

end Events

/-! ## The invariant -/

/-- The files hold what the history says, and versions grow. -/
structure BriefInv (files : RoomFiles) (x : Snapshot (World μ) RoomStep) : Prop where
  text : x.world.files.brief.content = briefText files x.trace
  state : x.world.files.state.content = (commits files x.trace).head?.map (·.state)
  versions : (commits files x.trace).Pairwise fun later earlier =>
    earlier.state.briefVersion < later.state.briefVersion

theorem briefInv_quiet (files : RoomFiles) : KeptQuietly (BriefInv (μ := μ) files) := by
  intro x e w hx hstep
  refine ⟨?_, ?_, ?_⟩
  · rw [Snapshot.record_world, hstep.files, Snapshot.record_trace,
      briefText_noWrite hstep.noWrite]
    exact hx.text
  · rw [Snapshot.record_world, hstep.files, Snapshot.record_trace,
      commits_noWrite hstep.noWrite]
    exact hx.state
  · rw [Snapshot.record_trace, commits_noWrite hstep.noWrite]
    exact hx.versions

section Writes

variable {files : RoomFiles} {x : Snapshot (World μ) RoomStep}

theorem BriefInv.writeBrief (hx : BriefInv files x) (t : Nat) (body : String) :
    BriefInv files (x.record (.ran t (.wroteBrief body))
      { x.world with files := { x.world.files with brief := .whole body } }) where
  text := rfl
  state := hx.state
  versions := hx.versions

/-- The state that is stored is the latest update's. -/
theorem BriefInv.head_of_whole (hx : BriefInv files x) {raw : RoomState}
    (hraw : x.world.files.state = .whole raw) :
    ∃ commit rest, commits files x.trace = commit :: rest ∧ commit.state = raw := by
  have hstate := hx.state
  rw [hraw] at hstate
  cases hcommits : commits files x.trace with
  | nil => simp [hcommits, Stored.content] at hstate
  | cons commit rest =>
      refine ⟨commit, rest, rfl, ?_⟩
      simpa [hcommits, Stored.content] using hstate.symm

/-- The next version is above all before. -/
theorem BriefInv.writeState (hx : BriefInv files x) (t : Nat) {raw s : RoomState}
    (hraw : x.world.files.state = .whole raw) (hs : s.briefVersion = raw.briefVersion + 1) :
    BriefInv files (x.record (.ran t (.wroteState .updated s))
      { x.world with files := { x.world.files with state := .whole s } }) where
  text := hx.text
  state := rfl
  versions := by
    obtain ⟨commit, rest, hcommits, rfl⟩ := hx.head_of_whole hraw
    have hversions := hx.versions
    change (BriefCommit.mk _ s :: commits files x.trace).Pairwise _
    rw [hcommits] at hversions ⊢
    refine List.pairwise_cons.mpr ⟨fun earlier hearlier => ?_, hversions⟩
    change earlier.state.briefVersion < s.briefVersion
    rcases List.mem_cons.mp hearlier with rfl | hearlier
    · omega
    · have hbefore := (List.pairwise_cons.mp hversions).1 earlier hearlier
      omega

end Writes

/-! ## Updates -/

variable {process : Nat → Nat} {files : RoomFiles} {t : Nat}

theorem updateBrief_kept (options : UpdateBriefOptions) :
    LockSafe process (BriefInv (μ := μ) files) t (fun _ _ => True) (fun _ _ => True)
      (updateBrief t options) fun _ => True := by
  refine .bind_ofExcept (fun _ _ => ?_) fun _ _ _ _ _ => trivial
  refine .bind_ofExcept (fun _ _ => ?_) fun _ _ _ _ _ => trivial
  refine .bind_ofExcept (fun _ _ => ?_) fun _ _ _ _ _ => trivial
  refine Contract.Safe.bind (R := fun _ _ => True) ?_ fun now => ?_
  · cases options.now with
    | some now => exact .done fun _ _ _ => trivial
    | none =>
        exact (look_safe (briefInv_quiet files) (.of_const True) (true_own fun _ => True)
          fun _ => ⟨beq_self_eq_true _, trivial⟩).conseq (fun _ _ h => h)
          (fun _ _ _ _ => trivial) fun _ _ _ _ => trivial
  have hpast := anyPast_enduring t
  refine withWriterLock_lockSafe (briefInv_quiet files) (.of_const True)
    (fun _ _ _ => trivial) ((readRoomState_holding (briefInv_quiet files) hpast _).bind
      fun state => ?_)
  refine (write_holding (briefInv_quiet files) hpast (.wroteBrief options.body)
    (fun f => { f with brief := .whole options.body })
    (q := fun f => ∃ raw, f.state = .whole raw ∧ state = withRoomDefaults raw)
    (fun x hx _ => hx.writeBrief t _) fun _ hf => hf.2).bind fun _ => ?_
  refine (write_holding (briefInv_quiet files) hpast (.wroteState .updated _)
    (fun f => { f with state := .whole _ }) (q := anyFiles) ?_ fun _ _ => trivial).bind
      fun _ => .done fun _ _ h => ⟨trivial, h.lock⟩
  rintro x hx ⟨-, -, raw, hraw, rfl⟩
  exact hx.writeState t hraw rfl

/-! ## Readers -/

section Readers

variable {P : Snapshot (World μ) RoomStep → Prop}

/-- The body that is read is what `brief.md` held. -/
theorem readBriefFile_sees (hstable : LockStable process (BriefInv files) t P)
    (hown : KeptByOwn t (· = .readBrief) P) :
    LockSafe process (BriefInv files) t
      (fun body x => P x ∧ textRead files t x.trace = some body) (fun _ _ => True)
      readBriefFile P := by
  refine (look_safe (briefInv_quiet files) hstable hown fun _ => ⟨rfl, rfl⟩).conseq
    (fun _ _ h => h) ?_ fun _ _ _ _ => trivial
  rintro body y - ⟨hp, x, w, rfl, rfl, hx, -, hbody⟩
  refine ⟨hp, ?_⟩
  rw [Snapshot.record_trace, textRead, if_pos rfl, ← hx.text]
  exact Stored.content_of_read hbody

/-- Caller `t` read the state of a complete update. -/
def ReadCommit (files : RoomFiles) (t : Nat) (state : RoomState)
    (x : Snapshot (World μ) RoomStep) : Prop :=
  ∃ commit ∈ commits files x.trace, commitRead files t x.trace = some commit ∧
    ∀ body, roomBrief state body = roomBrief commit.state body

theorem readRoomState_sees (hstable : LockStable process (BriefInv files) t P)
    (hown : KeptByOwn t (fun l => ∃ found, l = .readState found) P) :
    LockSafe process (BriefInv files) t (fun state x => P x ∧ ReadCommit files t state x)
      (fun _ _ => True) readRoomState P := by
  refine (look_safe (briefInv_quiet files) hstable hown fun _ => ⟨rfl, _, rfl⟩).conseq
    (fun _ _ h => h) ?_ fun _ _ _ _ => trivial
  rintro state y - ⟨hp, x, w, rfl, rfl, hx, -, hstate⟩
  refine ⟨hp, ?_⟩
  cases hread : x.world.files.state.read with
  | error e =>
      rw [hread] at hstate
      cases hstate
  | ok raw =>
      rw [hread] at hstate
      obtain rfl := Except.ok.inj hstate
      obtain ⟨commit, rest, hcommits, rfl⟩ := hx.head_of_whole (Stored.eq_whole_of_read hread)
      refine ⟨commit, ?_, ?_, fun _ => rfl⟩
      · rw [Snapshot.record_trace, commits_noWrite rfl, hcommits]
        exact List.mem_cons_self
      · rw [Snapshot.record_trace, commitRead, if_pos rfl, hcommits]
        rfl

theorem textRead_stable (body : String) :
    LockStable process (BriefInv (μ := μ) files) t
      fun x => textRead files t x.trace = some body := by
  intro e x w hf _ _ _ h
  refine (textRead_foreign ?_).trans h
  rintro l rfl
  exact hf rfl

theorem readCommit_stable (state : RoomState) :
    LockStable process (BriefInv (μ := μ) files) t (ReadCommit files t state) := by
  rintro e x w hf - - - ⟨commit, hmem, hread, hstate⟩
  refine ⟨commit, commits_suffix.subset hmem, (commitRead_foreign ?_).trans hread, hstate⟩
  rintro l rfl
  exact hf rfl

/-- A reader has the body it read with the version of the update whose state it read. -/
theorem readBrief_sees (bodyFirst : Bool) :
    LockSafe process (BriefInv (μ := μ) files) t
      (fun brief x => textRead files t x.trace = some brief.body ∧
        ∃ state, ReadCommit files t state x ∧ brief = roomBrief state brief.body)
      (fun _ _ => True) (readBrief bodyFirst) fun _ => True := by
  cases bodyFirst with
  | true =>
      refine (readBriefFile_sees (.of_const True) (true_own _)).bind fun body => ?_
      refine ((readRoomState_sees (textRead_stable body) ?_).pre fun _ _ h => h.2).bind
        fun state => .done fun x _ h => ⟨h.1, state, h.2, rfl⟩
      rintro x w _ ⟨found, rfl⟩ - h - -
      exact ⟨h, h⟩
  | false =>
      refine (readRoomState_sees (.of_const True) (true_own _)).bind fun state => ?_
      refine ((readBriefFile_sees (readCommit_stable state) ?_).pre fun _ _ h => h.2).bind
        fun body => .done fun x _ h => ⟨h.2, state, h.1, rfl⟩
      rintro x w _ rfl - h - -
      exact ⟨h, h⟩

end Readers

/-! ## Runs -/

inductive BriefCall where
  | updateBrief (options : UpdateBriefOptions)
  | readBrief (bodyFirst : Bool)
  | timePasses (ms : Nat)

/-- The call as caller `t` makes it, with what a reader gets. -/
def BriefCall.prog (t : Nat) : BriefCall → RoomProg μ (Option RoomBrief)
  | .updateBrief options => (Storage.updateBrief t options).bind fun _ => .ret none
  | .readBrief bodyFirst => (Storage.readBrief bodyFirst).bind fun brief => .ret (some brief)
  | .timePasses ms =>
      (Prog.update (fun _ => .memory) fun w => { w with clock := w.clock + ms }).bind
        fun _ => .ret none

/-- A room with these files, and the calls about to be made, each by its own caller. -/
def briefing (files : RoomFiles) (clock : Nat) (memory : μ) (calls : List BriefCall) :
    Config (World μ) RoomStep Failure (Option RoomBrief) where
  snap := ⟨⟨files, none, clock, memory⟩, []⟩
  threads := calls.mapIdx fun t call => some (call.prog t)

/-- What caller `t` returned is what it read. -/
def BriefReturned (files : RoomFiles) (t : Nat) (r : Option RoomBrief)
    (x : Snapshot (World μ) RoomStep) : Prop :=
  ∀ brief, r = some brief → textRead files t x.trace = some brief.body ∧
    ∃ state, ReadCommit files t state x ∧ brief = roomBrief state brief.body

theorem briefReturned_stable (r : Option RoomBrief) :
    LockStable process (BriefInv (μ := μ) files) t (BriefReturned files t r) := by
  intro e x w hf hx hx' hg h brief hr
  obtain ⟨htext, state, hstate, hbrief⟩ := h brief hr
  exact ⟨textRead_stable brief.body e x w hf hx hx' hg htext, state,
    readCommit_stable state e x w hf hx hx' hg hstate, hbrief⟩

theorem briefCall_ends (call : BriefCall) :
    LockSafe process (BriefInv (μ := μ) files) t (BriefReturned files t) (fun _ _ => True)
      (call.prog t) fun _ => True := by
  cases call with
  | updateBrief options =>
      exact (updateBrief_kept options).bind fun _ => .done fun _ _ _ _ h => nomatch h
  | readBrief bodyFirst =>
      refine (readBrief_sees bodyFirst).bind fun brief => .done fun x _ h => ?_
      rintro _ ⟨⟩
      exact h
  | timePasses ms =>
      refine Contract.Safe.bind (R := fun _ _ => True) ?_ fun _ =>
        .done fun _ _ _ _ h => nomatch h
      refine step_keeps (briefInv_quiet files) (.of_const True) (true_own fun _ => True)
        (fun x hx _ _ => ?_) (fun _ => ⟨rfl, trivial⟩) (fun _ => rfl) fun _ => rfl
      exact briefInv_quiet files x _ _ hx ⟨rfl, rfl, rfl, Nat.le_add_right _ _⟩

/-- At the start the room as it was created is the only complete update. -/
theorem briefing_inv (files : RoomFiles) (clock : Nat) (memory : μ)
    (calls : List BriefCall) : BriefInv files (briefing files clock memory calls).snap where
  text := rfl
  state := by
    change files.state.content = (commits files []).head?.map (·.state)
    cases h : files.state.content <;> simp [commits, h]
  versions := by
    change (commits files []).Pairwise _
    cases h : files.state.content <;> simp [commits, h]

/-- An update is known by its version. -/
theorem eq_of_briefVersion {cs : List BriefCommit} (h : cs.Pairwise fun later earlier =>
    earlier.state.briefVersion < later.state.briefVersion) {a b : BriefCommit} (ha : a ∈ cs)
    (hb : b ∈ cs) (hversion : a.state.briefVersion = b.state.briefVersion) : a = b := by
  have hnodup : (cs.map (·.state.briefVersion)).Nodup :=
    List.pairwise_map.mpr (h.imp fun hlt => hlt.ne')
  exact List.inj_on_of_nodup_map hnodup ha hb hversion

/-- In every run, what a reader gets is of one complete update if and only if the body it
read is that of the latest update that was complete when it read `room.json`. -/
theorem readBrief_committed_iff (process : Nat → Nat) (files : RoomFiles) (clock : Nat)
    (memory : μ) (calls : List BriefCall)
    {c : Config (World μ) RoomStep Failure (Option RoomBrief)}
    (h : (faultySystem μ process).Reachable (briefing files clock memory calls) c) {t : Nat}
    {brief : RoomBrief} (hret : System.thread c t = some (.ret (some brief))) :
    Committed files c.snap.trace brief ↔
      textRead files t c.snap.trace = (commitRead files t c.snap.trace).bind (·.body) := by
  have hinv := briefing_inv files clock memory calls
  have hstart : (lockContract process (BriefInv files)).HoldsTo (faultySystem μ process)
      (BriefReturned files) (fun _ _ _ => True) (briefing files clock memory calls) := by
    refine ⟨hinv, fun t p hp => ?_⟩
    simp only [System.thread, briefing, List.getElem?_mapIdx] at hp
    cases hcall : calls[t]? with
    | none => simp [hcall] at hp
    | some call =>
        obtain rfl : call.prog t = p := by simpa [hcall] using hp
        exact .of_safe (briefCall_ends call) hinv trivial
  obtain ⟨hx, hends⟩ := Contract.ends_sound hstart (lockContract_crashSafe (briefInv_quiet _))
    (fun _ => briefReturned_stable) (fun _ _ => .of_const True) h
  have hreturned : BriefReturned files t (some brief) c.snap := hends t _ hret
  obtain ⟨htext, state, ⟨commit, hmem, hread, hstate⟩, hbrief⟩ := hreturned brief rfl
  rw [hstate] at hbrief
  rw [htext, hread, Option.bind_some]
  constructor
  · rintro ⟨commit', hmem', hbody, hbrief'⟩
    have hversion := congrArg RoomBrief.briefVersion (hbrief'.symm.trans hbrief)
    rw [← eq_of_briefVersion hx.versions hmem' hmem hversion, hbody]
  · exact fun hbody => ⟨commit, hmem, hbody.symm, hbrief⟩

/-- A room with a brief. -/
def briefedRoom : RoomFiles where
  state := .whole (CreateRoomOptions.state ⟨"r", "host", some 0, none, none, none⟩ 0)
  participants := .whole []
  brief := .whole "old"
  messages := .whole []

/-- The brief is replaced while someone reads it. -/
def updateAndRead : List BriefCall :=
  [.updateBrief ⟨"r", "new", "host", some 1⟩, .readBrief false]

/-- The version is read before the update is complete and the body after it began. -/
def readBetween : List (Move Failure) := List.replicate 3 (.run 0) ++ List.replicate 2 (.run 1)

/-- A brief that is read behind a complete update, by the general theorem. -/
theorem readBrief_committed_iff_behindUpdate :
    ∃ c, (faultySystem Unit id).Reachable (briefing briefedRoom 0 () updateAndRead) c ∧
      System.thread c 1 = some (.ret (some ⟨"new", 2, 1, "host"⟩)) ∧
      (Committed briefedRoom c.snap.trace ⟨"new", 2, 1, "host"⟩ ↔
        textRead briefedRoom 1 c.snap.trace =
          (commitRead briefedRoom 1 c.snap.trace).bind (·.body)) := by
  have hrun : ((faultySystem Unit id).replay (briefing briefedRoom 0 () updateAndRead)
      (List.replicate 5 (.run 0) ++ List.replicate 2 (.run 1))).map
      (fun c => System.returned c 1) = some (some (some ⟨"new", 2, 1, "host"⟩)) := by decide
  obtain ⟨c, hc, hreturned⟩ := System.exists_reachable_of_replay hrun
  have hret := System.thread_of_returned hreturned
  exact ⟨c, hc, hret, readBrief_committed_iff id briefedRoom 0 () updateAndRead hc hret⟩

/-- Version 1 can be returned with the body of version 2. -/
theorem readBrief_mixes_versions :
    ¬ ∀ (calls : List BriefCall) (t : Nat) (brief : RoomBrief)
        (c : Config (World Unit) RoomStep Failure (Option RoomBrief)),
      (faultySystem Unit id).Reachable (briefing briefedRoom 0 () calls) c →
      System.thread c t = some (.ret (some brief)) →
      Committed briefedRoom c.snap.trace brief := by
  intro h
  have hrun : ((faultySystem Unit id).replay (briefing briefedRoom 0 () updateAndRead)
      readBetween).map (fun c => (System.returned c 1,
        (commits briefedRoom c.snap.trace).map (·.body))) =
      some (some (some ⟨"new", 1, 0, "host"⟩), [some "old"]) := by decide
  obtain ⟨c, hc, hv⟩ := System.exists_reachable_of_replay hrun
  obtain ⟨hreturned, hcommits⟩ := Prod.mk.inj hv
  obtain ⟨commit, hmem, hbody, -⟩ :=
    h updateAndRead 1 _ c hc (System.thread_of_returned hreturned)
  have hold : commit.body ∈ [some "old"] := hcommits ▸ List.mem_map_of_mem hmem
  rw [hbody] at hold
  simp at hold

end AgentGather.Storage
