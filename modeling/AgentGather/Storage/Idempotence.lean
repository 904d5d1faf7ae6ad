import Mathlib.Data.List.Pairwise
import AgentGather.Storage.History

/-!
# Sending again

A caller that did not learn what became of its append sends it again, under the same
`client_msg_id`.  The log is searched for it under the writer lock, so whatever of an
append fails, between any two of its steps, nothing is stored twice.
-/

namespace AgentGather.Storage

open AgentGather.Library AgentGather.Protocol

variable {μ : Type}

/-- The messages are of one sender and one `client_msg_id`. -/
def SameKey (m m' : Message) : Prop :=
  m.sender = m'.sender ∧ m.clientMsgId.isSome = true ∧ m.clientMsgId = m'.clientMsgId

instance : Std.Symm fun m m' => ¬ SameKey m m' where
  symm := by
    rintro m m' h ⟨hsender, hsome, hid⟩
    exact h ⟨hsender.symm, hid ▸ hsome, hid.symm⟩

/-- No sender's `client_msg_id` is stored twice. -/
def NoRepeats (log : List Message) : Prop := log.Pairwise fun m m' => ¬ SameKey m m'

/-- The room's files are there. -/
structure RoomFiles.Present (f : RoomFiles) : Prop where
  state : ∃ s, f.state = .whole s
  participants : ∃ ps, f.participants = .whole ps
  messages : ∃ ms, f.messages = .whole ms

/-- The append is well formed, and its `client_msg_id` is the stored message's. -/
structure RepeatOf (options : AppendMessageOptions) (message : Message) : Prop where
  room : assertSafeSlug options.roomId "room id" = .ok ()
  sender : assertSafeSlug options.sender "from" = .ok ()
  input : ∃ input, clientMessageInputFromRecord options.input = .ok input ∧
    input.clientMsgId.isSome = true ∧ message.clientMsgId = input.clientMsgId
  same : message.sender = options.sender

/-! ## What an append decides -/

section Deciding

variable {state : RoomState} {participants : List Participant} {log : List Message}
  {sender : String} {input : ClientMessageInput} {maxMessages : Option Nat} {now : Nat}
  {result : AppendMessageResult}

/-- A new message repeats none of the log. -/
theorem decideAppend_fresh
    (h : decideAppend state participants log sender input maxMessages now = .ok result)
    (hnew : result.idempotent = false) : ∀ m ∈ log, ¬ SameKey m result.message := by
  rintro m hm ⟨hsender, hsome, hid⟩
  have hmessage : result.message = createMessage input state.nextMessageId state.id sender
      (participants.map (·.aliasName)) now := by
    rcases decideAppend_cases h with ⟨hrepeat, -⟩ | ⟨-, hmessage⟩
    · rw [hnew] at hrepeat
      cases hrepeat
    · exact hmessage
  rw [hmessage] at hsender hid
  change m.sender = sender at hsender
  change m.clientMsgId = input.clientMsgId at hid
  obtain ⟨k, hk⟩ := Option.isSome_iff_exists.mp (hid ▸ hsome)
  have hfound : (input.clientMsgId.bind fun clientMsgId => log.find? fun message =>
      message.sender == sender && message.clientMsgId == some clientMsgId).isSome = true := by
    rw [hk, Option.bind_some, List.find?_isSome]
    exact ⟨m, hm, by simp [hsender, hid, hk]⟩
  obtain ⟨found, hfound⟩ := Option.isSome_iff_exists.mp hfound
  simp only [decideAppend, hfound] at h
  rw [← Except.ok.inj h] at hnew
  cases hnew

/-- Of a log without repeats, a repeated append gets the stored message, full or not. -/
theorem decideAppend_repeat {options : AppendMessageOptions} {message : Message}
    (hlog : NoRepeats log) (hrepeat : RepeatOf options message) (hm : message ∈ log)
    (hinput : clientMessageInputFromRecord options.input = .ok input) :
    decideAppend state participants log options.sender input maxMessages now =
      .ok ⟨message, true⟩ := by
  obtain ⟨input', hinput', hsome, hid⟩ := hrepeat.input
  obtain rfl : input' = input := Except.ok.inj (hinput'.symm.trans hinput)
  obtain ⟨k, hk⟩ := Option.isSome_iff_exists.mp hsome
  let same (m : Message) : Bool := m.sender == options.sender && m.clientMsgId == some k
  have hmatch : same message = true := by
    simp only [same, Bool.and_eq_true, beq_iff_eq]
    exact ⟨hrepeat.same, hid.trans hk⟩
  obtain ⟨found, hfound⟩ := Option.isSome_iff_exists.mp
    (List.find?_isSome.mpr ⟨message, hm, hmatch⟩)
  have hfirst : found = message := by
    have hsame := List.find?_some hfound
    simp only [same, Bool.and_eq_true, beq_iff_eq] at hsame hmatch
    by_contra hne
    exact (List.Pairwise.forall hlog (List.mem_of_find?_eq_some hfound) hm hne)
      ⟨hsame.1.trans hmatch.1.symm, by simp [hsame.2], hsame.2.trans hmatch.2.symm⟩
  subst hfirst
  simp only [decideAppend, hk, Option.bind_some]
  rw [show (log.find? fun message => message.sender == options.sender &&
    message.clientMsgId == some k) = some found from hfound]

end Deciding

theorem noRepeats_append {log : List Message} {m : Message} (h : NoRepeats log)
    (hm : ∀ m' ∈ log, ¬ SameKey m' m) : NoRepeats (log ++ [m]) := by
  refine List.pairwise_append.mpr ⟨h, List.pairwise_singleton _ _, fun m' hm' m'' hm'' => ?_⟩
  obtain rfl := List.mem_singleton.mp hm''
  exact hm m' hm'

/-- Caller `t` found this out under the lock, from the log as it was then. -/
def Decision (t : Nat) (initial : List Message) (options : AppendMessageOptions)
    (r : Except Failure AppendMessageResult) (es : List (Event RoomStep)) : Prop :=
  ∃ past input state participants now, past <:+ es ∧ .ran t .acquired ∈ past ∧
    clientMessageInputFromRecord options.input = .ok input ∧
    decideAppend state participants (logged initial past) options.sender input
      options.maxMessages now = r

theorem Decision.cons {t : Nat} {initial : List Message} {options : AppendMessageOptions}
    {r : Except Failure AppendMessageResult} {es : List (Event RoomStep)}
    (h : Decision t initial options r es) (e : Event RoomStep) :
    Decision t initial options r (e :: es) := by
  obtain ⟨past, input, state, participants, now, hpast, hrest⟩ := h
  exact ⟨past, input, state, participants, now, hpast.trans (List.suffix_cons e es), hrest⟩

/-- Of what was stored before the caller began, its append is a repeat. -/
theorem Decision.of_repeat {t : Nat} {initial : List Message}
    {options : AppendMessageOptions} {r : Except Failure AppendMessageResult}
    {es earlier : List (Event RoomStep)} {message : Message}
    (h : Decision t initial options r es) (hlog : NoRepeats (logged initial es))
    (hrepeat : RepeatOf options message) (hearlier : earlier <:+ es)
    (hbegun : ∀ e ∈ earlier, e.isOf t = false) (hm : message ∈ logged initial earlier) :
    r = .ok ⟨message, true⟩ := by
  obtain ⟨past, input, state, participants, now, hpast, hacquired, hinput, rfl⟩ := h
  have hbehind : earlier <:+ past := by
    refine (List.suffix_or_suffix_of_suffix hpast hearlier).resolve_left fun hbefore => ?_
    have hown := hbegun _ (hbefore.subset hacquired)
    simp [Event.isOf] at hown
  exact decideAppend_repeat (hlog.sublist (isPrefix_logged initial hpast).sublist) hrepeat
    ((isPrefix_logged initial hbehind).subset hm) hinput

/-! ## What an append ends with -/

/-- The caller wrote its message and the next id, or, where it was repeated, nothing. -/
def Wrote (t : Nat) (result : AppendMessageResult) (es : List (Event RoomStep)) : Prop :=
  if result.idempotent then writesOf t es = []
  else ∃ state, writesOf t es = [.wroteState .appended state, .appended result.message]

/-- An append that throws had a step that failed, or nothing to append; it wrote only what
it had decided to be new. -/
structure Threw (t : Nat) (initial : List Message) (options : AppendMessageOptions)
    (es : List (Event RoomStep)) : Prop where
  cause : (∃ l, .failed t l ∈ es) ∨ (∃ e, Decision t initial options (.error e) es) ∨
    ∀ message, ¬ RepeatOf options message
  writes : writesOf t es = [] ∨
    ∃ result, result.idempotent = false ∧ Decision t initial options (.ok result) es

section Events

variable {t : Nat} {initial : List Message} {options : AppendMessageOptions}
  {result : AppendMessageResult} {es : List (Event RoomStep)} {e : Event RoomStep}

theorem Wrote.besides (h : Wrote t result es)
    (he : isWriteEvent e = false ∨ ∀ l, e ≠ .ran t l) : Wrote t result (e :: es) := by
  rw [Wrote, writesOf_besides he]
  exact h

/-- What was appended is in the log. -/
theorem Wrote.mem (h : Wrote t result es) (hnew : result.idempotent = false) :
    result.message ∈ logged initial es := by
  rw [Wrote, if_neg (by simp [hnew])] at h
  obtain ⟨state, hwrites⟩ := h
  exact mem_logged_of_appended (t := t) (mem_of_mem_writesOf (by simp [hwrites]))

/-- What is returned is in the log, stored before or appended. -/
theorem Decision.mem (h : Decision t initial options (.ok result) es)
    (hwrote : Wrote t result es) : result.message ∈ logged initial es := by
  cases hnew : result.idempotent with
  | false => exact hwrote.mem hnew
  | true =>
      obtain ⟨past, input, state, participants, now, hpast, -, -, hresult⟩ := h
      rcases decideAppend_cases hresult with ⟨-, hmem, -⟩ | ⟨hfalse, -⟩
      · exact (isPrefix_logged initial hpast).subset hmem
      · cases hnew.symm.trans hfalse

theorem Threw.besides (h : Threw t initial options es)
    (he : isWriteEvent e = false ∨ ∀ l, e ≠ .ran t l) : Threw t initial options (e :: es) where
  cause := by
    rcases h.cause with ⟨l, hl⟩ | ⟨e', he'⟩ | hnone
    · exact .inl ⟨l, List.mem_cons_of_mem _ hl⟩
    · exact .inr (.inl ⟨e', he'.cons e⟩)
    · exact .inr (.inr hnone)
  writes := by
    rw [writesOf_besides he]
    rcases h.writes with hnone | ⟨result, hnew, hdecided⟩
    · exact .inl hnone
    · exact .inr ⟨result, hnew, hdecided.cons e⟩

/-- A step of the caller's own that fails. -/
theorem Threw.of_failed (l : RoomStep) (h : writesOf t es = [] ∨
    ∃ result, result.idempotent = false ∧ Decision t initial options (.ok result) es) :
    Threw t initial options (.failed t l :: es) where
  cause := .inl ⟨l, List.mem_cons_self⟩
  writes := by
    rw [writesOf_besides (.inl rfl)]
    rcases h with hnone | ⟨result, hnew, hdecided⟩
    · exact .inl hnone
    · exact .inr ⟨result, hnew, hdecided.cons _⟩

/-- A foreign event is none of the caller's steps. -/
theorem not_ran_of_foreign {process : Nat → Nat}
    (h : (faultySystem μ process).Foreign t e) : ∀ l, e ≠ .ran t l := by
  rintro l rfl
  exact h rfl

end Events

/-! ## The invariant -/

/-- The log is the history's, holds no repeats, and the files are there. -/
structure AppendInv (initial : List Message) (x : Snapshot (World μ) RoomStep) : Prop where
  log : x.world.files.log = logged initial x.trace
  unrepeated : NoRepeats x.world.files.log
  present : x.world.files.Present

theorem appendInv_quiet (initial : List Message) :
    KeptQuietly (AppendInv (μ := μ) initial) := by
  intro x e w hx hstep
  refine ⟨log_of_noWrite hx.log hstep.noWrite hstep.files, ?_, ?_⟩
  · rw [Snapshot.record_world, hstep.files]
    exact hx.unrepeated
  · rw [Snapshot.record_world, hstep.files]
    exact hx.present

/-- A line that repeats none keeps the invariant. -/
theorem AppendInv.append {initial : List Message} {x : Snapshot (World μ) RoomStep}
    (hx : AppendInv initial x) (t : Nat) {m : Message}
    (hm : ∀ m' ∈ x.world.files.log, ¬ SameKey m' m) :
    AppendInv initial (x.record (.ran t (.appended m)) { x.world with
      files := { x.world.files with messages := .whole (x.world.files.log ++ [m]) } }) where
  log := congrArg (· ++ [m]) hx.log
  unrepeated := noRepeats_append hx.unrepeated hm
  present := ⟨hx.present.state, hx.present.participants, _, rfl⟩

theorem AppendInv.write {initial : List Message} {x : Snapshot (World μ) RoomStep}
    (hx : AppendInv initial x) (t : Nat) (purpose : StateWrite) (s : RoomState) :
    AppendInv initial (x.record (.ran t (.wroteState purpose s))
      { x.world with files := { x.world.files with state := .whole s } }) where
  log := hx.log
  unrepeated := hx.unrepeated
  present := ⟨⟨s, rfl⟩, hx.present.participants, hx.present.messages⟩

theorem read_of_whole {α : Type} {f : Stored α} (h : ∃ a, f = .whole a) (e : Failure) :
    f.read ≠ .error e := by
  obtain ⟨a, rfl⟩ := h
  exact fun h => nomatch h

/-! ## The programs -/

section Programs

variable {process : Nat → Nat} {initial : List Message} {t : Nat}
  {K : List (Event RoomStep) → Prop} {E : Snapshot (World μ) RoomStep → Prop}

/-- Nothing written, and `K`. -/
def Unwritten (t : Nat) (K : List (Event RoomStep) → Prop) (es : List (Event RoomStep)) :
    Prop := K es ∧ writesOf t es = []

theorem unwritten_enduring (hK : ∀ e es, K es → K (e :: es)) :
    Enduring t (Unwritten t K) := by
  rintro e es he - ⟨hk, hw⟩
  exact ⟨hK e es hk, (writesOf_besides (.inl he)).trans hw⟩

theorem writes_enduring (hK : ∀ e es, K es → K (e :: es)) (ls : List RoomStep) :
    Enduring t fun es => K es ∧ writesOf t es = ls := by
  rintro e es he - ⟨hk, hw⟩
  exact ⟨hK e es hk, (writesOf_besides (.inl he)).trans hw⟩

/-- A look at the room's files under the lock, which are there. -/
theorem read_ends {R : List (Event RoomStep) → Prop} (hR : Enduring t R) {α : Type}
    {p : RoomFiles → Prop} {label : World μ → RoomStep} {result : World μ → Except Failure α}
    {q : α → RoomFiles → Prop}
    (hlabel : ∀ w : World μ, (label w).isQuiet w.clock = true ∧ label w ≠ .acquired)
    (hq : ∀ w a, result w = .ok a → q a w.files)
    (hthere : ∀ w e, w.files.Present → result w ≠ .error e)
    (hfailed : ∀ (x : Snapshot (World μ) RoomStep) l, R x.trace →
      E (x.record (.failed t l) x.world)) :
    LockSafe process (AppendInv initial) t (fun a => Holding t R fun f => p f ∧ q a f)
      (fun _ x => E x ∧ Locked t x) (Prog.query label result) (Holding t R p) :=
  query_ends (appendInv_quiet initial) hR hlabel (fun w a _ ha => hq w a ha)
    (fun _ e hx _ he => absurd he (hthere _ e hx.present)) fun x _ hp => hfailed x _ hp.past

/-- A line that repeats none of the log, and the next id. -/
theorem appendLine_ends (hK : ∀ e es, K es → K (e :: es)) {α : Type} {a : α} {m : Message}
    {s : RoomState} {p : RoomFiles → Prop}
    (hfresh : ∀ f, p f → ∀ m' ∈ f.log, ¬ SameKey m' m)
    (hfailed : ∀ (x : Snapshot (World μ) RoomStep) l, K x.trace →
      E (x.record (.failed t l) x.world)) :
    LockSafe process (AppendInv (μ := μ) initial) t
      (fun b x => (b = a ∧ K x.trace ∧
        writesOf t x.trace = [.wroteState .appended s, .appended m]) ∧ Locked t x)
      (fun _ x => E x ∧ Locked t x)
      ((appendJsonLine m).bind fun _ => (writeState .appended s).bind fun _ => .ret a)
      (Holding t (Unwritten t K) p) := by
  have hline : LockSafe process (AppendInv (μ := μ) initial) t
      (fun _ => Holding t (fun es => K es ∧ writesOf t es = [.appended m]) anyFiles)
      (fun _ x => E x ∧ Locked t x) (appendJsonLine m) (Holding t (Unwritten t K) p) := by
    refine (write_ends (appendInv_quiet initial) (unwritten_enduring hK) (.appended m)
      (fun f => { f with messages := .whole (f.log ++ [m]) }) ?_
      (S := fun es => K es ∧ writesOf t es = [.appended m]) (q := anyFiles) ?_
      (fun _ _ => trivial) ?_).bind fun _ => ?_
    · exact fun x hx hp => hx.append t (hfresh _ hp.files)
    · exact fun es h => ⟨hK _ _ h.1, (writesOf_write rfl).trans (congrArg _ h.2)⟩
    · exact fun x _ hp => hfailed x _ hp.past.1
    · have hchmod := @query_ends μ process (AppendInv initial) t _ (appendInv_quiet initial)
        (writes_enduring hK [.appended m]) _ anyFiles (fun _ => .chmod .messages) (fun _ => .ok ())
        (fun _ _ => True) E (fun _ => ⟨rfl, by simp⟩) (fun _ _ _ _ => trivial)
        (fun _ _ _ _ h => nomatch h) fun x _ hp => hfailed x _ hp.past.1
      exact hchmod.conseq (fun _ _ h => h) (fun _ _ _ h => ⟨h.lock, h.past, trivial⟩)
        fun _ _ _ h => h
  refine hline.bind fun _ => ?_
  refine (write_ends (appendInv_quiet initial) (writes_enduring hK _)
    (.wroteState .appended s) (fun f => { f with state := .whole s })
    (fun x hx _ => hx.write t .appended s)
    (S := fun es => K es ∧ writesOf t es = [.wroteState .appended s, .appended m])
    (q := anyFiles) ?_ (fun _ _ => trivial) fun x _ hp => hfailed x _ hp.past.1).bind
    fun _ => .done fun _ _ h => ⟨⟨rfl, h.past⟩, h.lock⟩
  exact fun es h => ⟨hK _ _ h.1, (writesOf_write rfl).trans (congrArg _ h.2)⟩

theorem unwritten_stable :
    LockStable process (AppendInv (μ := μ) initial) t fun x => writesOf t x.trace = [] :=
  fun _ _ _ hf _ _ _ h => (writesOf_besides (.inr (not_ran_of_foreign hf))).trans h

/-- Who has written nothing looks at the clock, which does not fail. -/
theorem dateNow_unwritten {F : Failure → Snapshot (World μ) RoomStep → Prop}
    (given : Option Nat) :
    LockSafe process (AppendInv (μ := μ) initial) t (fun _ x => writesOf t x.trace = []) F
      (dateNow given) fun x => writesOf t x.trace = [] := by
  cases given with
  | some now => exact Contract.Safe.ret
  | none =>
      refine Contract.Safe.action unwritten_stable ?_ ?_ (fun _ _ _ _ _ _ h => nomatch h)
        fun _ _ _ _ h => nomatch h
      · exact fun x hx _ _ _ => keeps_quietly (appendInv_quiet initial) hx
          ⟨beq_self_eq_true _, rfl, rfl, le_refl _⟩ fun _ _ hu => hu
      · exact fun x _ _ h _ _ _ => (writesOf_besides (.inl rfl)).trans h

/-- A section of an append under the lock, which ends as `A` says, or as `E`. -/
theorem section_ends {α : Type} {body : RoomProg μ α}
    {A : α → List (Event RoomStep) → Prop} {F : List (Event RoomStep) → Prop}
    (hA : ∀ a e es, (isWriteEvent e = false ∨ ∀ l, e ≠ .ran t l) → A a es → A a (e :: es))
    (hF : ∀ e es, (isWriteEvent e = false ∨ ∀ l, e ≠ .ran t l) → F es → F (e :: es))
    (hunwritten : ∀ l es, writesOf t es = [] → F (.failed t l :: es))
    (hreleased : ∀ a l es, A a es → F (.failed t l :: es))
    (hbody : LockSafe process (AppendInv initial) t (fun a x => A a x.trace ∧ Locked t x)
      (fun _ x => F x.trace ∧ Locked t x) body
      (Holding t (Unwritten t fun es => .ran t .acquired ∈ es) anyFiles)) :
    LockSafe process (AppendInv initial) t (fun a x => A a x.trace) (fun _ x => F x.trace)
      (withWriterLock t body) fun x => writesOf t x.trace = [] := by
  refine withWriterLock_ends (appendInv_quiet initial) unwritten_stable ?_
    (fun a e x w hf _ _ _ h => hA a e _ (.inr (not_ran_of_foreign hf)) h)
    (fun e x w hf _ _ _ h => hF e _ (.inr (not_ran_of_foreign hf)) h)
    (fun a x w h => hA a _ _ (.inl rfl) h) (fun x w h => hF _ _ (.inl rfl) h)
    (fun x l _ h => hunwritten l _ h) (fun a x l _ h => hreleased a l _ h)
    (fun x l _ h => hF _ _ (.inl rfl) h) hbody
  exact fun x _ h => ⟨List.mem_cons_self, (writesOf_besides (.inl rfl)).trans h⟩

/-- What a client's append ends with. -/
theorem appendMessageResult_ends (options : AppendMessageOptions) :
    LockSafe process (AppendInv (μ := μ) initial) t
      (fun result x => Decision t initial options (.ok result) x.trace ∧
        Wrote t result x.trace)
      (fun _ x => Threw t initial options x.trace) (appendMessageResult t options)
      fun x => writesOf t x.trace = [] := by
  refine .bind_ofExcept (fun _ hroom => ?_) fun e he x _ h =>
    ⟨.inr (.inr fun m hm => nomatch he.symm.trans hm.room), .inl h⟩
  refine .bind_ofExcept (fun _ hsender => ?_) fun e he x _ h =>
    ⟨.inr (.inr fun m hm => nomatch he.symm.trans hm.sender), .inl h⟩
  refine .bind_ofExcept (fun input hinput => ?_) fun e he x _ h => ⟨.inr (.inr fun m hm => ?_),
    .inl h⟩
  swap
  · obtain ⟨input, hinput, -⟩ := hm.input
    cases he.symm.trans hinput
  refine (dateNow_unwritten options.now).bind fun now => ?_
  have hunwritten (x : Snapshot (World μ) RoomStep) (l : RoomStep)
      (h : writesOf t x.trace = []) :
      Threw t initial options (x.record (.failed t l) x.world).trace := .of_failed l (.inl h)
  have hmember : Enduring t (Unwritten t fun es => .ran t .acquired ∈ es) :=
    unwritten_enduring fun _ _ => List.mem_cons_of_mem _
  refine section_ends
    (A := fun result es => Decision t initial options (.ok result) es ∧ Wrote t result es)
    (F := Threw t initial options)
    (fun _ e _ he h => ⟨h.1.cons e, h.2.besides he⟩) (fun _ _ he h => h.besides he)
    (fun l _ h => .of_failed l (.inl h)) ?_ ?_
  · rintro result l es ⟨hdecided, hwrote⟩
    refine .of_failed l ?_
    cases hnew : result.idempotent with
    | true => exact .inl (by simpa [Wrote, hnew] using hwrote)
    | false => exact .inr ⟨result, hnew, hdecided⟩
  refine (read_ends hmember (q := fun _ _ => True) (fun _ => ⟨rfl, by simp⟩)
    (fun _ _ _ => trivial) (fun w e hw h => ?_) fun x l h => hunwritten x l h.2).bind
    fun state => ?_
  · obtain ⟨s, hs⟩ := hw.state
    simp [hs, Stored.read, Except.map] at h
  refine (read_ends hmember (q := fun _ _ => True) (fun _ => ⟨rfl, by simp⟩)
    (fun _ _ _ => trivial) (fun w e hw h => read_of_whole hw.participants e h)
    fun x l h => hunwritten x l h.2).bind fun participants => ?_
  refine (read_ends hmember (q := fun ms f => f.messages = .whole ms)
    (fun _ => ⟨rfl, by simp⟩) (fun w ms h => Stored.eq_whole_of_read h)
    (fun w e hw h => read_of_whole hw.messages e h)
    fun x l h => hunwritten x l h.2).bind fun messages => ?_
  have hdecision {x : Snapshot (World μ) RoomStep} {p : RoomFiles → Prop}
      (hx : AppendInv initial x)
      (hp : Holding t (Unwritten t fun es => .ran t .acquired ∈ es)
        (fun f => p f ∧ f.messages = .whole messages) x) :
      Decision t initial options (decideAppend state participants messages options.sender
        input options.maxMessages now) x.trace := by
    have hlog : logged initial x.trace = messages := by
      rw [← hx.log, RoomFiles.log, hp.files.2]
    exact ⟨x.trace, input, state, participants, now, List.suffix_rfl, hp.past.1, hinput,
      by rw [hlog]⟩
  refine .bind_ofExcept (fun result hresult => ?_) fun e he x hx hp =>
    ⟨⟨.inr (.inl ⟨e, he ▸ hdecision hx hp⟩), .inl hp.past.2⟩, hp.lock⟩
  split_ifs with hrepeat
  · refine .done fun x hx hp => ⟨⟨hresult ▸ hdecision hx hp, ?_⟩, hp.lock⟩
    simpa [Wrote, hrepeat] using hp.past.2
  · have hnew : result.idempotent = false := by simpa using hrepeat
    refine ((appendLine_ends (K := Decision t initial options (.ok result))
      (p := fun f => f.messages = .whole messages) (fun e _ h => h.cons e) (fun f hf => ?_)
      fun _ l h => .of_failed l (.inr ⟨result, hnew, h⟩)).conseq ?_ ?_ fun _ _ _ h => h)
    · rw [RoomFiles.log, hf]
      exact decideAppend_fresh hresult hnew
    · exact fun x hx hp =>
        ⟨hp.lock, ⟨hresult ▸ hdecision hx hp, hp.past.2⟩, hp.files.2⟩
    · rintro a x - ⟨⟨rfl, hdecided, hwrites⟩, hlock⟩
      refine ⟨⟨hdecided, ?_⟩, hlock⟩
      rw [Wrote, if_neg hrepeat]
      exact ⟨_, hwrites⟩

/-- What a message of the system ends with. -/
theorem appendServerMessage_ends (options : AppendServerMessageOptions) :
    LockSafe process (AppendInv (μ := μ) initial) t
      (fun message x => Wrote t ⟨message, false⟩ x.trace) (fun _ _ => True)
      (appendServerMessage t options) fun x => writesOf t x.trace = [] := by
  refine .bind_ofExcept (fun _ _ => ?_) fun _ _ _ _ _ => trivial
  refine .bind_ofExcept (fun _ _ => ?_) fun _ _ _ _ _ => trivial
  refine (dateNow_unwritten options.now).bind fun now => ?_
  have hmember : Enduring t (Unwritten t fun es => .ran t .acquired ∈ es) :=
    unwritten_enduring fun _ _ => List.mem_cons_of_mem _
  refine section_ends (A := fun message es => Wrote t ⟨message, false⟩ es)
    (F := fun _ => True) (fun _ _ _ he h => h.besides he) (fun _ _ _ _ => trivial)
    (fun _ _ _ => trivial) (fun _ _ _ _ => trivial) ?_
  refine (read_ends hmember (q := fun _ _ => True) (fun _ => ⟨rfl, by simp⟩)
    (fun _ _ _ => trivial) (fun w e hw h => ?_) fun _ _ _ => trivial).bind fun state => ?_
  · obtain ⟨s, hs⟩ := hw.state
    simp [hs, Stored.read, Except.map] at h
  refine (read_ends hmember (q := fun _ _ => True) (fun _ => ⟨rfl, by simp⟩)
    (fun _ _ _ => trivial) (fun w e hw h => read_of_whole hw.participants e h)
    fun _ _ _ => trivial).bind fun participants => ?_
  refine (appendLine_ends (K := fun es => .ran t .acquired ∈ es) (p := anyFiles) (fun _ _ => List.mem_cons_of_mem _)
    (fun f _ m _ hkey => ?_) fun _ _ _ => trivial).conseq ?_ ?_ fun _ _ _ h => h
  · obtain ⟨-, hsome, hnone⟩ := hkey
    rw [hnone] at hsome
    cases hsome
  · exact fun _ _ h => ⟨h.lock, h.past, trivial⟩
  · rintro _ x - ⟨⟨rfl, -, hwrites⟩, hlock⟩
    exact ⟨⟨_, hwrites⟩, hlock⟩

end Programs

/-! ## Runs -/

/-- Appends of clients and of the system, and time. -/
inductive SendCall where
  | appendMessageResult (options : AppendMessageOptions)
  | appendServerMessage (options : AppendServerMessageOptions)
  | timePasses (ms : Nat)

/-- The call as caller `t` makes it; the system's message is always a new one. -/
def SendCall.prog (t : Nat) : SendCall → RoomProg μ (Option AppendMessageResult)
  | .appendMessageResult options =>
      (Storage.appendMessageResult t options).bind fun result => .ret (some result)
  | .appendServerMessage options =>
      (Storage.appendServerMessage t options).bind fun message => .ret (some ⟨message, false⟩)
  | .timePasses ms =>
      (Prog.update (fun _ => .memory) fun w => { w with clock := w.clock + ms }).bind
        fun _ => .ret none

/-- A room with these files, and the appends about to be made, each by its own caller. -/
def appending (files : RoomFiles) (clock : Nat) (memory : μ) (calls : List SendCall) :
    Config (World μ) RoomStep Failure (Option AppendMessageResult) where
  snap := ⟨⟨files, none, clock, memory⟩, []⟩
  threads := calls.mapIdx fun t call => some (call.prog t)

theorem thread_appending {files : RoomFiles} {clock : Nat} {memory : μ}
    {calls : List SendCall} {t : Nat} {p : RoomProg μ (Option AppendMessageResult)}
    (h : System.thread (appending files clock memory calls) t = some p) :
    ∃ call, calls[t]? = some call ∧ p = call.prog t := by
  simp only [System.thread, appending, List.getElem?_mapIdx] at h
  cases hcall : calls[t]? with
  | none => simp [hcall] at h
  | some call => exact ⟨call, rfl, by simpa [hcall] using h.symm⟩

/-- What caller `t` returned: what it wrote and, of a client's append, why. -/
def AppendReturned (initial : List Message) (calls : List SendCall) (t : Nat)
    (r : Option AppendMessageResult) (x : Snapshot (World μ) RoomStep) : Prop :=
  (∀ result, r = some result →
    Wrote t result x.trace ∧ result.message ∈ logged initial x.trace) ∧
  ∀ options, calls[t]? = some (.appendMessageResult options) →
    ∃ result, r = some result ∧ Decision t initial options (.ok result) x.trace

/-- What is known of a client's append of caller `t` that threw. -/
def AppendThrew (initial : List Message) (calls : List SendCall) (t : Nat) (_ : Failure)
    (x : Snapshot (World μ) RoomStep) : Prop :=
  ∀ options, calls[t]? = some (.appendMessageResult options) →
    Threw t initial options x.trace

section Calls

variable {process : Nat → Nat} {initial : List Message} {calls : List SendCall} {t : Nat}

theorem appendReturned_stable (r : Option AppendMessageResult) :
    LockStable process (AppendInv (μ := μ) initial) t (AppendReturned initial calls t r) := by
  rintro e x w hf - - - ⟨hwrote, hdecided⟩
  refine ⟨fun result hr => ?_, fun options hcall => ?_⟩
  · obtain ⟨hwrites, hm⟩ := hwrote result hr
    exact ⟨hwrites.besides (.inr (not_ran_of_foreign hf)),
      (isPrefix_loggedStep _ e).subset hm⟩
  obtain ⟨result, hr, hdecision⟩ := hdecided options hcall
  exact ⟨result, hr, hdecision.cons e⟩

theorem appendThrew_stable (err : Failure) :
    LockStable process (AppendInv (μ := μ) initial) t (AppendThrew initial calls t err) :=
  fun _ _ _ hf _ _ _ h options hcall =>
    (h options hcall).besides (.inr (not_ran_of_foreign hf))

theorem sendCall_ends {call : SendCall} (hcall : calls[t]? = some call) :
    LockSafe process (AppendInv (μ := μ) initial) t (AppendReturned initial calls t)
      (AppendThrew initial calls t) (call.prog t) fun x => writesOf t x.trace = [] := by
  cases call with
  | appendMessageResult options =>
      have hthis {options'} (h : calls[t]? = some (.appendMessageResult options')) :
          options' = options := by
        cases hcall.symm.trans h
        rfl
      refine ((appendMessageResult_ends options).conseq (fun _ _ h => h) (fun _ _ _ h => h)
        fun e x _ h options' hcall' => ?_).bind fun result => .done fun x _ h => ⟨?_, ?_⟩
      · rwa [hthis hcall']
      · rintro _ ⟨⟩
        exact ⟨h.2, h.1.mem h.2⟩
      · intro options' hcall'
        rw [hthis hcall']
        exact ⟨result, rfl, h.1⟩
  | appendServerMessage options =>
      have hother {options'} (h : calls[t]? = some (.appendMessageResult options')) : False :=
        nomatch hcall.symm.trans h
      refine ((appendServerMessage_ends options).conseq (fun _ _ h => h) (fun _ _ _ h => h)
        fun e x _ _ options' hcall' => (hother hcall').elim).bind fun message =>
          .done fun x _ h => ⟨?_, fun options' hcall' => (hother hcall').elim⟩
      rintro _ ⟨⟩
      exact ⟨h, h.mem rfl⟩
  | timePasses ms =>
      have hother {options'} (h : calls[t]? = some (.appendMessageResult options')) : False :=
        nomatch hcall.symm.trans h
      have htime : LockSafe process (AppendInv (μ := μ) initial) t (fun _ _ => True)
          (fun _ _ => True) (Prog.update (fun _ => .memory)
            fun w : World μ => { w with clock := w.clock + ms }) fun _ => True := by
        refine step_keeps (appendInv_quiet initial) (.of_const True)
          (true_own fun _ => True) (fun x hx _ _ => ?_) (fun _ => ⟨rfl, trivial⟩)
          (fun _ => rfl) fun _ => rfl
        exact appendInv_quiet initial x _ _ hx ⟨rfl, rfl, rfl, Nat.le_add_right _ _⟩
      refine Contract.Safe.bind (R := fun _ _ => True) (htime.conseq (fun _ _ _ => trivial)
        (fun _ _ _ h => h) fun _ _ _ _ options' hcall' => (hother hcall').elim) fun _ =>
          .done fun x _ _ => ⟨fun _ h => (nomatch h), fun options' hcall' => ?_⟩
      exact (hother hcall').elim

end Calls

/-- What is stored once: no key twice, a returned append is one line or none, and a
repeated append gets what is stored. -/
structure StoredOnce (initial : List Message) (calls : List SendCall)
    (c : Config (World μ) RoomStep Failure (Option AppendMessageResult)) : Prop where
  unrepeated : NoRepeats c.snap.world.files.log
  /-- A new message was appended, and nothing else; for one that was there, nothing was
  written. -/
  returned : ∀ t result, System.thread c t = some (.ret (some result)) →
    Wrote t result c.snap.trace ∧ result.message ∈ c.snap.world.files.log
  /-- Whoever repeats what was stored before it began gets the stored message, unless one
  of its own steps fails, and writes nothing. -/
  repeated : ∀ t options message earlier p,
    calls[t]? = some (.appendMessageResult options) → RepeatOf options message →
    earlier <:+ c.snap.trace → (∀ e ∈ earlier, e.isOf t = false) →
    message ∈ logged initial earlier →
    System.thread c t = some p → p.isOver = true →
    writesOf t c.snap.trace = [] ∧ (p = .ret (some ⟨message, true⟩) ∨
      ∃ e l, p = .err e ∧ .failed t l ∈ c.snap.trace)

/-- In every run of appends, whatever of them fails, nothing is stored twice. -/
theorem append_storedOnce (process : Nat → Nat) (files : RoomFiles) (clock : Nat)
    (memory : μ) (calls : List SendCall) (hfiles : files.Present)
    (hlog : NoRepeats files.log)
    {c : Config (World μ) RoomStep Failure (Option AppendMessageResult)}
    (h : (faultySystem μ process).Reachable (appending files clock memory calls) c) :
    StoredOnce files.log calls c := by
  have hinv : AppendInv files.log (appending files clock memory calls).snap :=
    ⟨rfl, hlog, hfiles⟩
  have hstart : (lockContract process (AppendInv files.log)).HoldsTo (faultySystem μ process)
      (AppendReturned files.log calls) (AppendThrew files.log calls)
      (appending files clock memory calls) := by
    refine ⟨hinv, fun t p hp => ?_⟩
    obtain ⟨call, hcall, rfl⟩ := thread_appending hp
    exact .of_safe (sendCall_ends hcall) hinv rfl
  obtain ⟨hx, hends⟩ := Contract.ends_sound hstart (lockContract_crashSafe (appendInv_quiet _))
    (fun _ => appendReturned_stable) (fun _ => appendThrew_stable) h
  refine ⟨hx.unrepeated, fun t result hret => ?_, ?_⟩
  · have hdone : AppendReturned files.log calls t (some result) c.snap := hends t _ hret
    rw [hx.log]
    exact hdone.1 result rfl
  · intro t options message earlier p hcall hrepeat hearlier hbegun hm hp hover
    have hdecided {r} (hr : Decision t files.log options r c.snap.trace) :
        r = .ok ⟨message, true⟩ :=
      hr.of_repeat (hx.log ▸ hx.unrepeated) hrepeat hearlier hbegun hm
    cases p with
    | ret r =>
        obtain ⟨hwrote, hreturned⟩ := hends t _ hp
        obtain ⟨result, rfl, hresult⟩ := hreturned options hcall
        obtain rfl := Except.ok.inj (hdecided hresult)
        exact ⟨by simpa [Wrote] using (hwrote _ rfl).1, .inl rfl⟩
    | err e =>
        have hthrew : Threw t files.log options c.snap.trace := hends t _ hp options hcall
        refine ⟨?_, .inr ?_⟩
        · rcases hthrew.writes with hnone | ⟨result, hnew, hresult⟩
          · exact hnone
          · obtain rfl := Except.ok.inj (hdecided hresult)
            cases hnew
        · rcases hthrew.cause with ⟨l, hl⟩ | ⟨e', he'⟩ | hnone
          · exact ⟨e, l, rfl, hl⟩
          · cases hdecided he'
          · exact absurd hrepeat (hnone message)
    | act label ready effect next failed => cases hover

/-- An empty log, of at most one message. -/
def emptyRoom : RoomFiles where
  state := .whole (CreateRoomOptions.state ⟨"r", "host", some 0, none, none, none⟩ 0)
  participants := .whole []
  brief := .whole ""
  messages := .whole []

/-- A message, sent twice under one `client_msg_id`. -/
def sendTwice : List SendCall :=
  List.replicate 2 (.appendMessageResult
    ⟨"r", "a", .obj [("text", .str "x"), ("client_msg_id", .str "k")], some 1, some 1⟩)

/-- The first one's `room.json` write fails behind its line, and the second one runs. -/
def failingState : List (Move Failure) :=
  List.replicate 6 (.run 0) ++ [.fail 0 .os, .run 0] ++ List.replicate 5 (.run 1)

/-- The second one gets what the first one stored, by the general theorem. -/
theorem append_storedOnce_sendTwice :
    ∃ c, (faultySystem Unit id).Reachable (appending emptyRoom 0 () sendTwice) c ∧
      (c.snap.world.files.log.length = 1 ∧
        ((System.thread c 1).map Prog.isOver) = some true) ∧
      StoredOnce emptyRoom.log sendTwice c := by
  have hrun : ((faultySystem Unit id).replay (appending emptyRoom 0 () sendTwice)
      failingState).map (fun c => (c.snap.world.files.log.length,
        (System.thread c 1).map Prog.isOver)) = some (1, some true) := by decide +kernel
  obtain ⟨c, hc, hv⟩ := System.exists_reachable_of_replay hrun
  obtain ⟨hlength, hover⟩ := Prod.mk.inj hv
  exact ⟨c, hc, ⟨hlength, hover⟩, append_storedOnce id emptyRoom 0 () sendTwice
    ⟨⟨_, rfl⟩, ⟨_, rfl⟩, ⟨_, rfl⟩⟩ .nil hc⟩

end AgentGather.Storage
