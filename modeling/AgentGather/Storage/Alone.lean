import AgentGather.Storage.RoomStore

/-!
# Operations that nothing interleaves with

What the operations of the room store do to the files when no other caller runs: the
pure core of an append, and that the program of its steps computes it.
-/

namespace AgentGather.Storage

open AgentGather.Library AgentGather.Protocol

variable {μ : Type} {α β : Type}

@[simp] theorem runAlone_ofExcept (r : Except Failure α) (w : World μ) :
    (Prog.ofExcept r : RoomProg μ α).runAlone w = (r, w) := by
  cases r <;> rfl

@[simp] theorem runAlone_update (label : World μ → RoomStep) (effect : World μ → World μ)
    (w : World μ) : (Prog.update label effect : RoomProg μ Unit).runAlone w =
      (.ok (), effect w) := rfl

@[simp] theorem runAlone_query (label : World μ → RoomStep)
    (result : World μ → Except Failure α) (w : World μ) :
    (Prog.query label result : RoomProg μ α).runAlone w = (result w, w) :=
  Prog.runAlone_action _ _ _ _ w

theorem runAlone_dateNow (given : Option Nat) (w : World μ) :
    (dateNow given : RoomProg μ Nat).runAlone w = (.ok (given.getD w.clock), w) := by
  cases given with
  | none => rfl
  | some now => rfl

/-- Going on from a step that only looks. -/
theorem runAlone_bind_query (label : World μ → RoomStep)
    (result : World μ → Except Failure α) (f : α → RoomProg μ β) (w : World μ) :
    ((Prog.query label result).bind f).runAlone w =
      match result w with
      | .ok a => (f a).runAlone w
      | .error e => (.error e, w) := by
  rw [Prog.runAlone_bind, runAlone_query]
  cases result w <;> rfl

theorem runAlone_bind_ofExcept (r : Except Failure α) (f : α → RoomProg μ β)
    (w : World μ) : ((Prog.ofExcept r).bind f).runAlone w =
      match r with
      | .ok a => (f a).runAlone w
      | .error e => (.error e, w) := by
  cases r <;> rfl

theorem runAlone_withWriterLock (t : Nat) (body : RoomProg μ α) (w : World μ) :
    (withWriterLock t body).runAlone w =
      ((body.runAlone { w with lock := some t }).1,
        { (body.runAlone { w with lock := some t }).2 with lock := none }) := by
  rw [withWriterLock, Prog.runAlone_bind, acquireWriterLock, Prog.runAlone_action]
  simp only [Prog.runAlone_finallyDo, releaseWriterLock, runAlone_update]

/-- What an append finds out before it writes: the state it read, and its result. -/
def appendDecision (options : AppendMessageOptions) (clock : Nat) (f : RoomFiles) :
    Except Failure (RoomState × AppendMessageResult) := do
  assertSafeSlug options.roomId "room id"
  assertSafeSlug options.sender "from"
  let input ← clientMessageInputFromRecord options.input
  let state ← f.state.read
  let participants ← f.participants.read
  let messages ← f.messages.read
  let result ← decideAppend (withRoomDefaults state) participants messages options.sender
    input options.maxMessages (options.now.getD clock)
  return (withRoomDefaults state, result)

/-- What an append that goes on has read and decided. -/
theorem appendDecision_ok {options : AppendMessageOptions} {clock : Nat} {f : RoomFiles}
    {state : RoomState} {result : AppendMessageResult}
    (h : appendDecision options clock f = .ok (state, result)) :
    ∃ input raw participants messages,
      assertSafeSlug options.roomId "room id" = .ok () ∧
      assertSafeSlug options.sender "from" = .ok () ∧
      clientMessageInputFromRecord options.input = .ok input ∧
      f.state.read = .ok raw ∧ state = withRoomDefaults raw ∧
      f.participants.read = .ok participants ∧ f.messages.read = .ok messages ∧
      decideAppend state participants messages options.sender input options.maxMessages
        (options.now.getD clock) = .ok result := by
  obtain ⟨_, hroom, h⟩ := exists_ok_of_bind h
  obtain ⟨_, hsender, h⟩ := exists_ok_of_bind h
  obtain ⟨input, hinput, h⟩ := exists_ok_of_bind h
  obtain ⟨raw, hraw, h⟩ := exists_ok_of_bind h
  obtain ⟨participants, hroster, h⟩ := exists_ok_of_bind h
  obtain ⟨messages, hlog, h⟩ := exists_ok_of_bind h
  obtain ⟨decided, hdecided, h⟩ := exists_ok_of_bind h
  obtain ⟨rfl, rfl⟩ := Prod.mk.inj (Except.ok.inj h)
  exact ⟨input, raw, participants, messages, hroom, hsender, hinput, hraw, rfl, hroster, hlog,
    hdecided⟩

/-- The files behind an append with this result. -/
def RoomFiles.appended (f : RoomFiles) (state : RoomState) (result : AppendMessageResult)
    (now : Nat) : RoomFiles :=
  if result.idempotent then f
  else { f with
    messages := .whole (f.log ++ [result.message])
    state := .whole
      { state with updatedAt := now, nextMessageId := result.message.id + 1 } }

/-- An append alone: its outcome, and the files it leaves. -/
theorem appendMessageResult_alone (t : Nat) (options : AppendMessageOptions) (w : World μ) :
    ((appendMessageResult t options).runAlone w).1 =
        (appendDecision options w.clock w.files).map Prod.snd ∧
      ((appendMessageResult t options).runAlone w).2.files =
        match appendDecision options w.clock w.files with
        | .ok (state, result) =>
            RoomFiles.appended w.files state result (options.now.getD w.clock)
        | .error _ => w.files := by
  unfold appendMessageResult appendDecision
  simp only [Prog.bind_eq_bind, runAlone_bind_ofExcept]
  cases assertSafeSlug options.roomId "room id" with
  | error e => exact ⟨rfl, rfl⟩
  | ok _ =>
    cases assertSafeSlug options.sender "from" with
    | error e => exact ⟨rfl, rfl⟩
    | ok _ =>
      cases clientMessageInputFromRecord options.input with
      | error e => exact ⟨rfl, rfl⟩
      | ok input =>
        simp only [Prog.runAlone_bind, runAlone_dateNow, runAlone_withWriterLock,
          readRoomState, readParticipants, readJsonLines, runAlone_query]
        cases hstate : w.files.state.read with
        | error e => exact ⟨rfl, rfl⟩
        | ok state =>
          cases hroster : w.files.participants.read with
          | error e => simp [hroster, Except.map, bind, Except.bind]
          | ok participants =>
            cases hlog : w.files.messages.read with
            | error e => simp [hroster, hlog, Except.map, bind, Except.bind]
            | ok messages =>
              cases hresult : decideAppend (withRoomDefaults state) participants messages
                  options.sender input options.maxMessages (options.now.getD w.clock) with
              | error e => simp [hroster, hlog, hresult, Except.map, bind, Except.bind]
              | ok result =>
                simp only [hroster, hlog, hresult, Except.map, bind, Except.bind, pure,
                  Except.pure, runAlone_ofExcept, RoomFiles.appended]
                cases hrepeat : result.idempotent with
                | true =>
                    simp only [if_true]
                    exact ⟨rfl, rfl⟩
                | false =>
                    simp only [if_neg Bool.false_ne_true]
                    exact ⟨rfl, rfl⟩

end AgentGather.Storage
