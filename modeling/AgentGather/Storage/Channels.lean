import AgentGather.Storage.BoardDiscipline

/-!
# Adding and renaming channels

Every write of the boardroom is one call's edit of what the write before it had left, or, for
the first one, of what was there or is projected from the bare room.  So the channels are those
of the beginning with every edit that was written applied in the order of the writes.
-/

namespace AgentGather.Storage.Boards

open AgentGather.Library AgentGather.Protocol

inductive ChannelCall where
  | addChannel (roomId : String) (channel : Channel) (now : Nat)
  | renameChannel (roomId channelId name : String) (now : Nat)

namespace ChannelCall

def prog (t : Nat) : ChannelCall → BoardProg Boardroom
  | addChannel roomId channel now => Boards.addChannel t roomId channel now
  | renameChannel roomId channelId name now => Boards.renameChannel t roomId channelId name now

def now : ChannelCall → Nat
  | addChannel _ _ now => now
  | renameChannel _ _ _ now => now

/-- What the call should make of the channels: one more at the end, or one with another name. -/
def apply (channels : List Channel) : ChannelCall → List Channel
  | addChannel _ channel _ => channels ++ [channel]
  | renameChannel _ channelId name _ =>
      channels.map fun c => if c.id == channelId then { c with name := name } else c

/-- A new channel has a new id, and a renamed one is there. -/
def Fits (channels : List Channel) : ChannelCall → Prop
  | addChannel _ channel _ => channel.id ∉ channels.map Channel.id
  | renameChannel _ channelId _ _ => channelId ∈ channels.map Channel.id

/-- The call changes the channels and the time of the last change, and nothing else. -/
def next (current : Boardroom) (call : ChannelCall) : Boardroom :=
  { current with channels := call.apply current.channels, updatedAt := call.now, legacy := false }

end ChannelCall

/-- The calls about to be made on a room. -/
def channelCalls (files : BoardFiles) (calls : List ChannelCall) :
    Config BoardWorld BoardStep Failure Boardroom where
  snap := ⟨⟨files, none⟩, []⟩
  threads := calls.mapIdx fun t call => some (call.prog t)

/-! ## The writes of a history -/

/-- Who wrote which boardroom, the latest write first. -/
def boardWrites : List (Event BoardStep) → List (Nat × Boardroom)
  | [] => []
  | .ran t (.wroteBoardroom boardroom) :: es => (t, boardroom) :: boardWrites es
  | _ :: es => boardWrites es

/-- The boardroom that is read behind the writes. -/
def lastBoardroom (start : Except Failure Boardroom) :
    List (Nat × Boardroom) → Except Failure Boardroom
  | [] => start
  | (_, boardroom) :: _ => .ok boardroom

/-- The file behind the writes. -/
def storedBoardroom (start : Stored Boardroom) : List (Nat × Boardroom) → Stored Boardroom
  | [] => start
  | (_, boardroom) :: _ => .whole boardroom

/-- Every write is valid and is the edit of its call, made once, on what was left before. -/
def Replayed (calls : List ChannelCall) (start : Except Failure Boardroom) :
    List (Nat × Boardroom) → Prop
  | [] => True
  | (t, boardroom) :: writes => Replayed calls start writes ∧
      (∀ other, (t, other) ∉ writes) ∧ ValidBoardroom boardroom ∧
      ∃ call current, calls[t]? = some call ∧ lastBoardroom start writes = .ok current ∧
        call.Fits current.channels ∧ boardroom = call.next current

/-- The calls of the writes, in their order. -/
def writtenCalls (calls : List ChannelCall) (writes : List (Nat × Boardroom)) :
    List ChannelCall :=
  writes.reverse.filterMap fun write => calls[write.1]?

section Writes

variable {calls : List ChannelCall} {start : Except Failure Boardroom}
  {writes : List (Nat × Boardroom)} {t : Nat} {boardroom : Boardroom}

theorem boardWrites_cons {e : Event BoardStep} {es : List (Event BoardStep)}
    (h : ∀ u b, e ≠ .ran u (.wroteBoardroom b)) : boardWrites (e :: es) = boardWrites es := by
  rw [boardWrites.eq_3]
  intro u b he
  exact h u b he

theorem boardWrites_quiet {e : Event BoardStep} (es : List (Event BoardStep))
    (h : isQuietEvent e = true) : boardWrites (e :: es) = boardWrites es := by
  apply boardWrites_cons
  rintro u b rfl
  cases h

theorem mem_boardWrites_cons {e : Event BoardStep} {es : List (Event BoardStep)}
    (h : (t, boardroom) ∈ boardWrites es) : (t, boardroom) ∈ boardWrites (e :: es) := by
  by_cases he : ∃ u b, e = .ran u (.wroteBoardroom b)
  · obtain ⟨u, b, rfl⟩ := he
    exact List.mem_cons_of_mem _ h
  · rw [boardWrites_cons fun u b hub => he ⟨u, b, hub⟩]
    exact h

/-- Every write of a history that is replayed is valid. -/
theorem Replayed.valid (h : Replayed calls start writes) (hmem : (t, boardroom) ∈ writes) :
    ValidBoardroom boardroom := by
  induction writes with
  | nil => cases hmem
  | cons write writes ih =>
      obtain ⟨hwrites, -, hvalid, -⟩ := h
      rcases List.mem_cons.mp hmem with rfl | hmem
      · exact hvalid
      · exact ih hwrites hmem

/-- The channels behind the writes: those of the beginning, with every edit applied. -/
theorem Replayed.channels (h : Replayed calls start writes)
    (hlast : lastBoardroom start writes = .ok boardroom) :
    ∃ first, start = .ok first ∧
      boardroom.channels = (writtenCalls calls writes).foldl ChannelCall.apply first.channels := by
  induction writes generalizing boardroom with
  | nil => exact ⟨boardroom, hlast, rfl⟩
  | cons write writes ih =>
      obtain ⟨u, written⟩ := write
      obtain rfl : written = boardroom := Except.ok.inj hlast
      obtain ⟨hwrites, -, -, call, current, hcall, hcurrent, -, rfl⟩ := h
      obtain ⟨first, hfirst, hchannels⟩ := ih hwrites hcurrent
      refine ⟨first, hfirst, ?_⟩
      rw [writtenCalls, List.reverse_cons, List.filterMap_append, List.foldl_append,
        ← writtenCalls, ← hchannels]
      simp only [List.filterMap_cons, hcall, List.filterMap_nil, List.foldl_cons,
        List.foldl_nil]
      rfl

/-- An edit leaves the first channel first, and of it all but the name. -/
theorem ChannelCall.head_apply (call : ChannelCall) (name : String) {channels : List Channel}
    {channel : Channel} (h : channels.head? = some channel) :
    ∃ changed, (call.apply channels).head? = some changed ∧
      { changed with name := name } = { channel with name := name } := by
  obtain ⟨rest, rfl⟩ := List.head?_eq_some_iff.mp h
  cases call with
  | addChannel roomId added now => exact ⟨channel, rfl, rfl⟩
  | renameChannel roomId channelId renamed now =>
      refine ⟨if channel.id == channelId then { channel with name := renamed } else channel, rfl,
        ?_⟩
      split
      · rfl
      · rfl

/-- The first channel stays first, and of it all but the name stays. -/
theorem head_foldl_apply (edits : List ChannelCall) (name : String) {channels : List Channel}
    {channel : Channel} (h : channels.head? = some channel) :
    ∃ changed, (edits.foldl ChannelCall.apply channels).head? = some changed ∧
      { changed with name := name } = { channel with name := name } := by
  induction edits generalizing channels channel with
  | nil => exact ⟨channel, h, rfl⟩
  | cons call edits ih =>
      obtain ⟨changed, hchanged, hsame⟩ := call.head_apply name h
      obtain ⟨last, hlast, hsame'⟩ := ih hchanged
      exact ⟨last, hlast, hsame'.trans hsame⟩

end Writes

/-! ## The invariant -/

/-- The room's state is left alone, and the boardroom is what the writes have left. -/
structure ChannelInv (calls : List ChannelCall) (files : BoardFiles)
    (x : Snapshot BoardWorld BoardStep) : Prop where
  room : x.world.files.room = files.room
  stored : x.world.files.boardroom = storedBoardroom files.boardroom (boardWrites x.trace)
  replayed : Replayed calls files.loaded (boardWrites x.trace)

/-- Caller `t` has not written the boardroom. -/
def NotWritten (t : Nat) (es : List (Event BoardStep)) : Prop :=
  ∀ boardroom, (t, boardroom) ∉ boardWrites es

/-- Caller `t` has written this boardroom. -/
def Written (t : Nat) (boardroom : Boardroom) (es : List (Event BoardStep)) : Prop :=
  (t, boardroom) ∈ boardWrites es

/-- Caller `t` has changed nothing, or it was its release of the lock that failed. -/
def Unchanged (t : Nat) (x : Snapshot BoardWorld BoardStep) : Prop :=
  NotWritten t x.trace ∨ .failed t .released ∈ x.trace

section Safety

variable {calls : List ChannelCall} {files : BoardFiles} {process : Nat → Nat} {t : Nat}
  {boardroom : Boardroom} {x : Snapshot BoardWorld BoardStep} {e : Event BoardStep}

/-- Events that do not write the boardroom keep the invariant. -/
theorem ChannelInv.record (h : ChannelInv calls files x)
    (he : ∀ u b, e ≠ .ran u (.wroteBoardroom b)) {w : BoardWorld}
    (hfiles : w.files = x.world.files) : ChannelInv calls files (x.record e w) := by
  refine ⟨?_, ?_, ?_⟩
  · rw [Snapshot.record_world, hfiles]
    exact h.room
  · rw [Snapshot.record_world, hfiles, Snapshot.record_trace, boardWrites_cons he]
    exact h.stored
  · rw [Snapshot.record_trace, boardWrites_cons he]
    exact h.replayed

theorem channelInv_quiet : KeptQuietly (ChannelInv calls files) := by
  intro x e w hx he hfiles _
  refine hx.record ?_ hfiles
  rintro u b rfl
  cases he

/-- What is read is what the writes have left. -/
theorem ChannelInv.loaded (h : ChannelInv calls files x) :
    x.world.files.loaded = lastBoardroom files.loaded (boardWrites x.trace) := by
  have hstored := h.stored
  have hreplayed := h.replayed
  cases hwrites : boardWrites x.trace with
  | nil =>
      rw [hwrites] at hstored
      simp only [BoardFiles.loaded, BoardFiles.readBoardroom, BoardFiles.projectRoom, hstored,
        h.room]
      rfl
  | cons write writes =>
      rw [hwrites] at hstored hreplayed
      obtain ⟨u, written⟩ := write
      obtain ⟨-, -, -, call, current, -, -, -, rfl⟩ := hreplayed
      rw [BoardFiles.loaded, BoardFiles.readBoardroom, hstored]
      rfl

theorem notWritten_cons {es : List (Event BoardStep)} (h : NotWritten t es)
    (he : ∀ b, e ≠ .ran t (.wroteBoardroom b)) : NotWritten t (e :: es) := by
  intro b hmem
  by_cases hwrite : ∃ u written, e = .ran u (.wroteBoardroom written)
  · obtain ⟨u, written, rfl⟩ := hwrite
    rcases List.mem_cons.mp hmem with hhead | hmem
    · obtain ⟨rfl, rfl⟩ := Prod.mk.inj hhead
      exact he b rfl
    · exact h b hmem
  · rw [boardWrites_cons fun u written hub => hwrite ⟨u, written, hub⟩] at hmem
    exact h b hmem

theorem notWritten_enduring : Enduring (NotWritten t) := by
  intro e es he h
  refine notWritten_cons h ?_
  rintro b rfl
  cases he

theorem written_enduring : Enduring (Written t boardroom) :=
  fun _ _ _ h => mem_boardWrites_cons h

theorem notWritten_stable :
    BoardStable (boardSystem process) (ChannelInv calls files) t
      fun x => NotWritten t x.trace := by
  intro e x w hforeign _ _ _ hx
  refine notWritten_cons hx ?_
  rintro b rfl
  exact hforeign rfl

theorem written_stable :
    BoardStable (boardSystem process) (ChannelInv calls files) t
      fun x => Written t boardroom x.trace :=
  fun _ _ _ _ _ _ _ hx => mem_boardWrites_cons hx

theorem unchanged_stable :
    BoardStable (boardSystem process) (ChannelInv calls files) t (Unchanged t) := by
  intro e x w hforeign hi hi' hguar hx
  rcases hx with hx | hx
  · exact .inl (notWritten_stable e x w hforeign hi hi' hguar hx)
  · exact .inr (List.mem_cons_of_mem e hx)

/-! ## The calls -/

/-- The write of a call's edit. -/
theorem persistBoardroom_safe {call : ChannelCall} {current : Boardroom}
    (hcall : calls[t]? = some call) (hfits : call.Fits current.channels) :
    BoardSafe (boardSystem process) (ChannelInv calls files) t
      (fun b => Holding t (Written t b) fun _ => True)
      (fun _ => Holding t (NotWritten t) fun _ => True)
      (persistBoardroom (call.next current))
      (Holding t (NotWritten t) fun f => f.loaded = .ok current) := by
  refine .bind_ofExcept (fun _ hvalid => ?_) fun _ _ x _ h => ⟨h.lock, h.past, trivial⟩
  refine Contract.Safe.bind (R := fun _ =>
    Holding t (Written t (call.next current)) fun _ => True) ?_ fun _ => .ret
  refine Contract.Safe.conseq (Q := fun _ =>
      Holding t (Written t (call.next current)) fun _ => True)
    (change_safe channelInv_quiet notWritten_enduring (fun x hx h => ?_) (fun es _ => ?_)
      fun _ _ => trivial) (fun _ _ h => h) (fun _ _ _ h => h)
    fun _ _ _ h => ⟨h.lock, h.past, trivial⟩
  · refine ⟨hx.room, rfl, hx.replayed, h.past, assertValidBoardroom_ok_iff.mp hvalid, call,
      current, hcall, ?_, hfits, rfl⟩
    rw [← hx.loaded]
    exact h.files
  · exact List.mem_cons_self

/-- Reading the boardroom, a check, and the write of the edit, all under the lock. -/
theorem edit_safe {call : ChannelCall} (hcall : calls[t]? = some call)
    {check : Boardroom → Except Failure Unit}
    (hcheck : ∀ current, check current = .ok () → call.Fits current.channels) :
    BoardSafe (boardSystem process) (ChannelInv calls files) t
      (fun b x => Written t b x.trace) (fun _ => Unchanged t)
      (withWriterLock t (readBoardroomUnlocked.bind fun current =>
        (Prog.ofExcept (check current)).bind fun _ => persistBoardroom (call.next current)))
      fun x => NotWritten t x.trace := by
  have hbody : BoardSafe (boardSystem process) (ChannelInv calls files) t
      (fun b => Holding t (Written t b) fun _ => True)
      (fun _ => Holding t (NotWritten t) fun _ => True)
      (readBoardroomUnlocked.bind fun current =>
        (Prog.ofExcept (check current)).bind fun _ => persistBoardroom (call.next current))
      (Holding t (NotWritten t) fun _ => True) := by
    refine Contract.Safe.bind (R := fun current =>
      Holding t (NotWritten t) fun f => True ∧ f.loaded = .ok current)
      (readBoardroomUnlocked_safe channelInv_quiet notWritten_enduring ?_) fun current => ?_
    · rintro (_ | _) <;> rfl
    · refine .bind_ofExcept (fun _ hok => ?_) fun _ _ x _ h => ⟨h.lock, h.past, trivial⟩
      exact (persistBoardroom_safe hcall (hcheck current hok)).pre fun x _ h =>
        ⟨h.lock, h.past, h.files.2⟩
  have hwritten (b : Boardroom) : Enduring (Written t b) := written_enduring
  refine withWriterLock_safe channelInv_quiet notWritten_stable hwritten notWritten_enduring
    (fun x hx h _ => ?_) (fun x _ h => ?_) (fun b x hx h => ?_) (fun b x _ _ _ h => ?_)
    (fun x hx h => ?_) hbody
  · exact ⟨hx.record (by rintro _ _ ⟨⟩) rfl,
      notWritten_cons h (by rintro _ ⟨⟩), trivial⟩
  · exact .inl (notWritten_cons h (by rintro _ ⟨⟩))
  · exact ⟨hx.record (by rintro _ _ ⟨⟩) rfl, mem_boardWrites_cons h.past⟩
  · exact .inr List.mem_cons_self
  · exact ⟨hx.record (by rintro _ _ ⟨⟩) rfl,
      .inl (notWritten_cons h.past (by rintro _ ⟨⟩)), .inr List.mem_cons_self⟩

theorem ChannelCall.prog_safe {call : ChannelCall} (hcall : calls[t]? = some call) :
    BoardSafe (boardSystem process) (ChannelInv calls files) t
      (fun b x => Written t b x.trace) (fun _ => Unchanged t) (call.prog t)
      fun x => NotWritten t x.trace := by
  cases call with
  | addChannel roomId channel now =>
      refine .bind_ofExcept (fun _ _ => ?_) fun _ _ _ _ h => .inl h
      refine edit_safe hcall fun current hcheck => ?_
      rw [throwIf_ok_iff, List.any_eq_false] at hcheck
      intro hmem
      obtain ⟨c, hc, hid⟩ := List.mem_map.mp hmem
      exact hcheck c hc (beq_iff_eq.mpr hid)
  | renameChannel roomId channelId name now =>
      refine .bind_ofExcept (fun _ _ => ?_) fun _ _ _ _ h => .inl h
      refine .bind_ofExcept (fun _ _ => ?_) fun _ _ _ _ h => .inl h
      refine edit_safe hcall fun current hcheck => ?_
      rw [throwIf_ok_iff, Bool.not_eq_false', List.any_eq_true] at hcheck
      obtain ⟨c, hc, hid⟩ := hcheck
      exact List.mem_map.mpr ⟨c, hc, beq_iff_eq.mp hid⟩

theorem channelInv_crashSafe :
    (boardContract (boardSystem process) (ChannelInv calls files)).CrashSafe
      (boardSystem process) := by
  intro p damage hdamage x hx _
  obtain rfl := Option.some.inj hdamage
  refine ⟨hx.record (by rintro _ _ ⟨⟩) rfl, fun u hforeign hu => ⟨?_, rfl, rfl⟩⟩
  have hne : (process u == p) = false := beq_false_of_ne hforeign
  simp [hu, hne]

theorem thread_channelCalls {p : BoardProg Boardroom}
    (h : System.thread (channelCalls files calls) t = some p) :
    ∃ call, calls[t]? = some call ∧ p = call.prog t := by
  simp only [System.thread, channelCalls, List.getElem?_mapIdx] at h
  cases hcall : calls[t]? with
  | none => simp [hcall] at h
  | some call => exact ⟨call, rfl, by simpa [hcall] using h.symm⟩

/-- In every run the boardroom is what the writes have left, and every call ends with its
write, or without one. -/
theorem channelCalls_ends {c : Config BoardWorld BoardStep Failure Boardroom}
    (h : (boardSystem process).Reachable (channelCalls files calls) c) :
    (boardContract (boardSystem process) (ChannelInv calls files)).HoldsTo
      (boardSystem process) (fun t b x => Written t b x.trace) (fun t _ => Unchanged t) c := by
  have hinv : ChannelInv calls files (channelCalls files calls).snap := ⟨rfl, rfl, trivial⟩
  refine Contract.ends_sound ⟨hinv, fun t p hp => ?_⟩ channelInv_crashSafe
    (fun _ _ => written_stable) (fun _ _ => unchanged_stable) h
  obtain ⟨call, hcall, rfl⟩ := thread_channelCalls hp
  exact .of_safe (call.prog_safe hcall) hinv fun _ hmem => nomatch hmem

end Safety

/-! ## Runs -/

/-- A room that is legacy or has a valid boardroom. -/
def HasBoardroom (files : BoardFiles) : Prop :=
  files.boardroom = .absent ∨ ∃ boardroom, files.boardroom = .whole boardroom ∧
    ValidBoardroom boardroom

/-- What adds and renames do to the boardroom of a room. -/
structure ChannelsKept (calls : List ChannelCall) (files : BoardFiles)
    (c : Config BoardWorld BoardStep Failure Boardroom) : Prop where
  /-- Every boardroom that is stored is valid. -/
  valid : ∀ boardroom, c.snap.world.files.boardroom = .whole boardroom →
    ValidBoardroom boardroom
  /-- Every write is one call's edit of what the write before it had left. -/
  replayed : Replayed calls files.loaded (boardWrites c.snap.trace)
  /-- The file is the last write. -/
  stored : c.snap.world.files.boardroom =
    storedBoardroom files.boardroom (boardWrites c.snap.trace)
  /-- No edit that was written is lost. -/
  channels : ∀ current, c.snap.world.files.loaded = .ok current →
    ∃ first, files.loaded = .ok first ∧ current.channels =
      (writtenCalls calls (boardWrites c.snap.trace)).foldl ChannelCall.apply first.channels
  /-- A legacy room keeps its projected channel. -/
  general : files.boardroom = .absent → ∀ t boardroom,
    (t, boardroom) ∈ boardWrites c.snap.trace → ∃ state channel, files.room = .whole state ∧
      boardroom.channels.head? = some channel ∧
      { channel with name := defaultChannelName } = defaultChannel state.createdAt
  /-- A call that succeeds has written what it returns. -/
  successful : ∀ t boardroom, System.returned c t = some boardroom →
    (t, boardroom) ∈ boardWrites c.snap.trace
  /-- A call that fails has written nothing, unless it failed to release the lock. -/
  failing : ∀ t e, System.thread c t = some (.err e) → .failed t .released ∉ c.snap.trace →
    ∀ boardroom, (t, boardroom) ∉ boardWrites c.snap.trace

/-- A projected boardroom has the one channel `general`. -/
theorem loaded_of_absent {files : BoardFiles} {first : Boardroom}
    (habsent : files.boardroom = .absent) (h : files.loaded = .ok first) :
    ∃ state, files.room = .whole state ∧ first.channels = [defaultChannel state.createdAt] := by
  have hroom : files.loaded = files.projectRoom := by
    rw [BoardFiles.loaded, BoardFiles.readBoardroom, habsent]
    rfl
  rw [hroom, BoardFiles.projectRoom] at h
  cases hstate : files.room with
  | absent =>
      rw [hstate] at h
      cases h
  | torn =>
      rw [hstate] at h
      cases h
  | whole state =>
      rw [hstate] at h
      obtain rfl := Except.ok.inj h
      exact ⟨state, rfl, rfl⟩

/-- The first channel of every write is the projected one, perhaps under another name. -/
theorem Replayed.general {calls : List ChannelCall} {files : BoardFiles}
    {writes : List (Nat × Boardroom)} (h : Replayed calls files.loaded writes)
    (habsent : files.boardroom = .absent) {t : Nat} {boardroom : Boardroom}
    (hmem : (t, boardroom) ∈ writes) :
    ∃ state channel, files.room = .whole state ∧
      boardroom.channels.head? = some channel ∧
      { channel with name := defaultChannelName } = defaultChannel state.createdAt := by
  induction writes with
  | nil => cases hmem
  | cons write writes ih =>
      rcases List.mem_cons.mp hmem with rfl | hmem
      · obtain ⟨first, hfirst, hchannels⟩ := h.channels rfl
        obtain ⟨state, hroom, hgeneral⟩ := loaded_of_absent habsent hfirst
        have hhead : first.channels.head? = some (defaultChannel state.createdAt) := by
          rw [hgeneral]
          rfl
        obtain ⟨channel, hchannel, hsame⟩ :=
          head_foldl_apply (writtenCalls calls ((t, boardroom) :: writes)) defaultChannelName hhead
        refine ⟨state, channel, hroom, ?_, hsame⟩
        rw [hchannels]
        exact hchannel
      · exact ih h.1 hmem

/-- A bare room with the id `r`. -/
def bareRoom : BoardFiles where
  room := .whole ⟨"r", .opened, none, 0, 0, none, 1, 1, 0, "host", none, none, none⟩
  boardroom := .absent
  forum := .empty

/-- A forum is added while `general` gets another name. -/
def twoEdits : List ChannelCall :=
  [.addChannel "r" ⟨"ideas", "Ideas", "forum", "active", 5⟩ 5,
    .renameChannel "r" "general" "Lobby" 6]

end AgentGather.Storage.Boards
