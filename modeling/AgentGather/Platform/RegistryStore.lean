import Mathlib.Data.String.Basic
import AgentGather.Library.Monitor
import AgentGather.Library.RelyGuarantee
import AgentGather.Platform.Registry

/-!
# The registry

The records of `platform/rooms`, one file for each room.  A record is created under the writer
lock and never replaced or removed, so whatever interleaves with a call, and whatever fails of
it, a room has the record of one creator and every reader sees that record.
-/

namespace AgentGather.Platform

open AgentGather.Library AgentGather.Library.Url AgentGather.Protocol

/-! ## The store -/

/-- The bytes of `platform/rooms/<room_id>.json` by room id, and who holds the lock. -/
structure RegistryWorld where
  files : OrderedMap String (List Nat)
  lock : Option Nat

inductive RegistryStep where
  | madeDirectory
  | acquired
  | released
  | read (roomId : String)
  | wrote (room : ControlPlaneRoom)
  | listed
deriving DecidableEq

abbrev RegistryProg := Prog RegistryWorld RegistryStep Failure

def ensureRoomsDir : RegistryProg Unit := .update (fun _ => .madeDirectory) id

def withRegistryLock {α : Type} (t : Nat) (body : RegistryProg α) : RegistryProg α :=
  (Prog.action (fun _ => .acquired) (fun w => w.lock.isNone) (fun w => { w with lock := some t })
    fun _ => .ok ()).bind fun _ =>
      body.finallyDo (.update (fun _ => .released) fun w => { w with lock := none })

def readRoomFile (roomId : String) : RegistryProg (List Nat) :=
  .query (fun _ => .read roomId) fun w =>
    match w.files.get? roomId with
    | some bytes => .ok bytes
    | none => .error .notFound

def fileExists (roomId : String) : RegistryProg Bool :=
  ((readRoomFile roomId).bind fun _ => .ret true).catchErr fun e =>
    if e = .notFound then .ret false else .err e

/-- The file is written aside and renamed. -/
def writeRecord (room : ControlPlaneRoom) : RegistryProg Unit := do
  ensureRoomsDir
  .update (fun _ => .wrote room) fun w =>
    { w with files := w.files.set room.roomId (JsonFile.bytes room.toJson) }

def alreadyExists (roomId : String) : Failure :=
  .error ("control plane metadata already exists for room " ++ roomId)

/-- A `ControlPlaneNotFoundError`. -/
def noMetadata (roomId : String) : Failure :=
  .error ("no control plane metadata for room " ++ roomId)

section Calls

variable (isDate : String → Bool) (H : HostParser)

/-- `iso` is the date of the call. -/
def createControlPlaneRoom (t : Nat) (input : Json) (iso : String) :
    RegistryProg ControlPlaneRoom := do
  let sanitized ← .ofExcept (sanitizeInput isDate H input)
  .ofExcept (assertSafeSlug sanitized.roomId "room id")
  ensureRoomsDir
  withRegistryLock t do
    let found ← fileExists sanitized.roomId
    if found then throw (alreadyExists sanitized.roomId)
    else
      let record : ControlPlaneRoom := ⟨sanitized, iso, iso⟩
      writeRecord record
      return record

def readControlPlaneRoom (roomId : String) : RegistryProg Json := do
  .ofExcept (assertSafeSlug roomId "room id")
  let bytes ← (readRoomFile roomId).catchErr fun e =>
    .err (if e = .notFound then noMetadata roomId else e)
  match JsonFile.read bytes with
  | some record => return record
  | none => throw .malformedJson

def readRooms : List String → RegistryProg (List Json)
  | [] => return []
  | id :: ids => do
      let room ← readControlPlaneRoom id
      let rooms ← readRooms ids
      return room :: rooms

/-- The files of the directory by their names. -/
def listControlPlaneRooms : RegistryProg (List Json) := do
  let ids ← .query (fun _ => .listed) fun w =>
    .ok (w.files.keys.mergeSort fun a b => decide (a ≤ b))
  readRooms ids

inductive RegistryCall where
  | create (input : Json) (iso : String)
  | read (roomId : String)
  | list

inductive RegistryReply where
  | created (room : ControlPlaneRoom)
  | record (value : Json)
  | records (values : List Json)

def RegistryCall.prog (t : Nat) : RegistryCall → RegistryProg RegistryReply
  | .create input iso =>
      (createControlPlaneRoom isDate H t input iso).bind fun room => .ret (.created room)
  | .read roomId => (readControlPlaneRoom roomId).bind fun value => .ret (.record value)
  | .list => listControlPlaneRooms.bind fun values => .ret (.records values)

/-- Every step may fail, and a process that is gone leaves the lock. -/
def registrySystem (process : Nat → Nat) : System RegistryWorld RegistryStep Failure where
  process := process
  faults _ e := e == .os
  crash p := some fun w => { w with lock := w.lock.filter fun t => process t != p }

/-- An empty registry, and the calls about to be made. -/
def registry (calls : List RegistryCall) :
    Config RegistryWorld RegistryStep Failure RegistryReply where
  snap := ⟨⟨.empty, none⟩, []⟩
  threads := calls.mapIdx fun t call => some (call.prog isDate H t)

end Calls

/-! ## What is kept -/

/-- The thread has written the record. -/
def Wrote (t : Nat) (room : ControlPlaneRoom) (es : List (Event RegistryStep)) : Prop :=
  .ran t (.wrote room) ∈ es

/-- The thread has written nothing. -/
def NotYet (t : Nat) (es : List (Event RegistryStep)) : Prop := ∀ room, ¬ Wrote t room es

/-- What is stored is what was written, by one thread for each room. -/
structure RegistryInv (x : Snapshot RegistryWorld RegistryStep) : Prop where
  stored : ∀ id bytes, x.world.files.get? id = some bytes → ∃ t room, Wrote t room x.trace ∧
    room.roomId = id
  written : ∀ t room, Wrote t room x.trace → isSafeSlug room.roomId = true ∧
    x.world.files.get? room.roomId = some (JsonFile.bytes room.toJson)
  once : ∀ t u room room', Wrote t room x.trace → Wrote u room' x.trace →
    room.roomId = room'.roomId → t = u ∧ room = room'

/-- No file is replaced or removed, and none is written but under the lock. -/
def registryContract (S : System RegistryWorld RegistryStep Failure) :
    Contract RegistryWorld RegistryStep where
  inv := RegistryInv
  guar e x w := ∀ t, S.Foreign t e → x.world.lock = some t →
    w.lock = some t ∧ w.files = x.world.files
  allow _ _ := True

section Rules

variable {process : Nat → Nat} {t : Nat} {es : List (Event RegistryStep)}
  {e : Event RegistryStep} {x : Snapshot RegistryWorld RegistryStep} {α : Type}

theorem Wrote.cons {room : ControlPlaneRoom} (h : Wrote t room es) (e : Event RegistryStep) :
    Wrote t room (e :: es) := List.mem_cons_of_mem e h

/-- An event that writes nothing leaves what was written. -/
theorem wrote_cons_iff {u : Nat} {room : ControlPlaneRoom}
    (he : ∀ t room, e ≠ .ran t (.wrote room)) : Wrote u room (e :: es) ↔ Wrote u room es := by
  constructor
  · intro h
    rcases List.mem_cons.mp h with heq | h
    · exact absurd heq.symm (he u room)
    · exact h
  · exact fun h => h.cons e

theorem NotYet.cons (h : NotYet t es) (he : ∀ room, e ≠ .ran t (.wrote room)) :
    NotYet t (e :: es) := by
  intro room hwrote
  rcases List.mem_cons.mp hwrote with heq | hwrote
  · exact he room heq.symm
  · exact h room hwrote

abbrev RegistrySafe (process : Nat → Nat) (t : Nat)
    (Q : α → Snapshot RegistryWorld RegistryStep → Prop)
    (E : Failure → Snapshot RegistryWorld RegistryStep → Prop) (p : RegistryProg α)
    (P : Snapshot RegistryWorld RegistryStep → Prop) : Prop :=
  (registryContract (registrySystem process)).Safe (registrySystem process) t Q E p P

abbrev RegistryStable (process : Nat → Nat) (t : Nat)
    (P : Snapshot RegistryWorld RegistryStep → Prop) : Prop :=
  (registryContract (registrySystem process)).Stable (registrySystem process) t P

/-- What is said of the history alone, and lasts. -/
theorem lasting_stable {F : List (Event RegistryStep) → Prop} (hF : ∀ e es, F es → F (e :: es)) :
    RegistryStable process t fun x => F x.trace := fun e x _ _ _ _ _ h => hF e x.trace h

theorem notYet_stable : RegistryStable process t fun x => NotYet t x.trace := by
  intro e x w hforeign _ _ _ h
  apply h.cons
  rintro room rfl
  exact hforeign rfl

theorem lock_stable : RegistryStable process t fun x => x.world.lock = some t :=
  fun _ _ _ hforeign _ _ hguar h => (hguar t hforeign h).1

/-- Who holds the lock finds the files as they were. -/
theorem absent_stable (id : String) : RegistryStable process t fun x =>
    x.world.lock = some t ∧ x.world.files.get? id = none := by
  rintro e x w hforeign - - hguar ⟨hlock, hnone⟩
  obtain ⟨hlock', hfiles⟩ := hguar t hforeign hlock
  refine ⟨hlock', ?_⟩
  rw [Snapshot.record_world, hfiles]
  exact hnone

/-- An event that leaves the files and writes nothing. -/
theorem RegistryInv.quiet (hx : RegistryInv x) (he : ∀ t room, e ≠ .ran t (.wrote room))
    {w : RegistryWorld} (hfiles : w.files = x.world.files) : RegistryInv (x.record e w) where
  stored id bytes h := by
    rw [Snapshot.record_world, hfiles] at h
    obtain ⟨u, room, hwrote, hid⟩ := hx.stored id bytes h
    exact ⟨u, room, hwrote.cons e, hid⟩
  written u room h := by
    rw [Snapshot.record_world, hfiles]
    exact hx.written u room ((wrote_cons_iff he).mp h)
  once u v room room' h h' :=
    hx.once u v room room' ((wrote_cons_iff he).mp h) ((wrote_cons_iff he).mp h')

/-- A record is written where there is none. -/
theorem RegistryInv.write (hx : RegistryInv x) {room : ControlPlaneRoom}
    (hsafe : isSafeSlug room.roomId = true) (hnone : x.world.files.get? room.roomId = none) :
    RegistryInv (x.record (.ran t (.wrote room)) { x.world with
      files := x.world.files.set room.roomId (JsonFile.bytes room.toJson) }) := by
  have hearlier {u : Nat} {other : ControlPlaneRoom} (h : Wrote u other x.trace) :
      other.roomId ≠ room.roomId := by
    intro heq
    have hstored := (hx.written u other h).2
    rw [heq, hnone] at hstored
    cases hstored
  have hcases {u : Nat} {other : ControlPlaneRoom}
      (h : Wrote u other (.ran t (.wrote room) :: x.trace)) :
      (u = t ∧ other = room) ∨ Wrote u other x.trace := by
    rcases List.mem_cons.mp h with heq | h
    · injection heq with ht hwrote
      injection hwrote with hroom
      exact .inl ⟨ht, hroom⟩
    · exact .inr h
  refine ⟨fun id bytes h => ?_, fun u other h => ?_, fun u v one other hone hother hid => ?_⟩
  · by_cases hid : id = room.roomId
    · exact ⟨t, room, List.mem_cons_self, hid.symm⟩
    · rw [Snapshot.record_world, OrderedMap.get?_set_ne _ _ hid] at h
      obtain ⟨u, other, hwrote, hother⟩ := hx.stored id bytes h
      exact ⟨u, other, hwrote.cons _, hother⟩
  · rcases hcases h with ⟨-, rfl⟩ | hwrote
    · exact ⟨hsafe, OrderedMap.get?_set_self _ _ _⟩
    · obtain ⟨hother, hstored⟩ := hx.written u other hwrote
      refine ⟨hother, ?_⟩
      rw [Snapshot.record_world, OrderedMap.get?_set_ne _ _ (hearlier hwrote)]
      exact hstored
  · rcases hcases hone with ⟨rfl, rfl⟩ | hone'
    · rcases hcases hother with ⟨rfl, rfl⟩ | hother'
      · exact ⟨rfl, rfl⟩
      · exact absurd hid.symm (hearlier hother')
    · rcases hcases hother with ⟨rfl, rfl⟩ | hother'
      · exact absurd hid (hearlier hone')
      · exact hx.once u v one other hone' hother' hid

theorem failed_keeps (hx : RegistryInv x) (l : RegistryStep) :
    (registryContract (registrySystem process)).Keeps (.failed t l) x x.world :=
  ⟨hx.quiet (fun _ _ h => by cases h) rfl, fun _ _ hlock => ⟨hlock, rfl⟩⟩

theorem os_of_fault {l : RegistryStep} {e : Failure}
    (h : (registrySystem process).faults l e = true) : e = .os := beq_iff_eq.mp h

/-- A step that only reads. -/
theorem query_safe {label : RegistryStep} {result : RegistryWorld → Except Failure α}
    {P : Snapshot RegistryWorld RegistryStep → Prop}
    {Q : α → Snapshot RegistryWorld RegistryStep → Prop}
    {E : Failure → Snapshot RegistryWorld RegistryStep → Prop}
    (hP : RegistryStable process t P) (hlabel : ∀ room, label ≠ .wrote room)
    (hok : ∀ x a, RegistryInv x → P x → result x.world = .ok a →
      Q a (x.record (.ran t label) x.world))
    (herr : ∀ x e, RegistryInv x → P x → result x.world = .error e →
      E e (x.record (.ran t label) x.world))
    (hfail : ∀ x, P x → E .os (x.record (.failed t label) x.world)) :
    RegistrySafe process t Q E (.query (fun _ => label) result) P := by
  refine Contract.Safe.action hP (fun x hx _ _ _ => ?_) (fun x a hx hp _ _ => hok x a hx hp)
    (fun x e hx hp _ _ => herr x e hx hp) fun x e hx hp he _ => ⟨failed_keeps hx _, ?_⟩
  swap
  · rw [os_of_fault he]
    exact hfail x hp
  refine ⟨hx.quiet ?_ rfl, fun _ _ hlock => ⟨hlock, rfl⟩⟩
  rintro u room heq
  injection heq with _ hwrote
  exact hlabel room hwrote

/-- A section under the lock.  `B` holds on entering, and what the body ends with outlives the
release. -/
theorem withRegistryLock_safe {body : RegistryProg α}
    {P B : Snapshot RegistryWorld RegistryStep → Prop}
    {Q : α → Snapshot RegistryWorld RegistryStep → Prop}
    {E : Failure → Snapshot RegistryWorld RegistryStep → Prop}
    (hP : RegistryStable process t P) (hQ : ∀ a, RegistryStable process t (Q a))
    (hE : ∀ e, RegistryStable process t (E e))
    (henter : ∀ x, RegistryInv x → P x →
      B (x.record (.ran t .acquired) { x.world with lock := some t }))
    (hleave : ∀ a x, Q a x → Q a (x.record (.ran t .released) { x.world with lock := none }))
    (hgiveUp : ∀ e x, E e x → E e (x.record (.ran t .released) { x.world with lock := none }))
    (hfail : ∀ l (x : Snapshot RegistryWorld RegistryStep),
      E .os (x.record (.failed t l) x.world))
    (hbody : RegistrySafe process t (fun a x => x.world.lock = some t ∧ Q a x)
      (fun e x => x.world.lock = some t ∧ E e x) body
      fun x => x.world.lock = some t ∧ B x) :
    RegistrySafe process t Q E (withRegistryLock t body) P := by
  have hquiet {l : RegistryStep} (hl : ∀ room, l ≠ .wrote room) (u : Nat)
      (room : ControlPlaneRoom) : Event.ran t l ≠ .ran u (.wrote room) := by
    intro heq
    injection heq with _ hwrote
    exact hl room hwrote
  have hrelease {F : Snapshot RegistryWorld RegistryStep → Prop} (hF : RegistryStable process t F)
      (hkept : ∀ x, F x → F (x.record (.ran t .released) { x.world with lock := none })) :
      RegistrySafe process t (fun _ => F) E
        (.update (fun _ => .released) fun w => { w with lock := none })
        fun x => x.world.lock = some t ∧ F x := by
    refine Contract.Safe.action (lock_stable.and hF) (fun x hx hp _ _ => ?_)
      (fun x _ _ hp _ _ _ => hkept x hp.2) (fun _ _ _ _ _ _ h => by cases h)
      fun x e hx _ he _ => ⟨failed_keeps hx _, os_of_fault he ▸ hfail _ x⟩
    refine ⟨hx.quiet (hquiet fun _ h => by cases h) rfl, fun u hforeign hu => ?_⟩
    rw [hp.1] at hu
    exact absurd (Option.some.inj hu) hforeign
  refine Contract.Safe.bind (R := fun _ x => x.world.lock = some t ∧ B x) ?_ fun _ =>
    hbody.finallyDo (fun a => hrelease (hQ a) (hleave a)) fun e => hrelease (hE e) (hgiveUp e)
  refine Contract.Safe.action hP (fun x hx _ hready _ => ?_)
    (fun x _ hx hp _ _ _ => ⟨rfl, henter x hx hp⟩) (fun _ _ _ _ _ _ h => by cases h)
    fun x e hx _ he _ => ⟨failed_keeps hx _, os_of_fault he ▸ hfail _ x⟩
  refine ⟨hx.quiet (hquiet fun _ h => by cases h) rfl, fun u _ hu => ?_⟩
  rw [Option.isNone_iff_eq_none.mp hready] at hu
  cases hu

end Rules

/-! ## Creating -/

section Creating

variable {isDate : String → Bool} {H : HostParser} {process : Nat → Nat} {t : Nat}
  {input : Json} {iso : String}

/-- Some step of the thread has failed. -/
def Failed (t : Nat) (es : List (Event RegistryStep)) : Prop := ∃ l, .failed t l ∈ es

/-- Some thread has written a record of the room. -/
def Stored (id : String) (es : List (Event RegistryStep)) : Prop :=
  ∃ u room, Wrote u room es ∧ room.roomId = id

/-- The caller has written the record it returns, and no other. -/
structure Created (isDate : String → Bool) (H : HostParser) (t : Nat) (input : Json)
    (iso : String) (room : ControlPlaneRoom) (es : List (Event RegistryStep)) : Prop where
  sanitized : sanitizeInput isDate H input = .ok room.toRoomMetadata
  createdAt : room.createdAt = iso
  updatedAt : room.updatedAt = iso
  wrote : ∀ other, Wrote t other es ↔ other = room

/-- The input is refused, or another caller has created the room, or a step has failed. -/
def NotCreated (isDate : String → Bool) (H : HostParser) (t : Nat) (input : Json) (e : Failure)
    (es : List (Event RegistryStep)) : Prop :=
  (sanitizeInput isDate H input = .error e ∧ NotYet t es) ∨
  (∃ metadata, sanitizeInput isDate H input = .ok metadata ∧ e = alreadyExists metadata.roomId ∧
    NotYet t es ∧ Stored metadata.roomId es) ∨
  Failed t es

theorem Stored.cons {id : String} {es : List (Event RegistryStep)} (h : Stored id es)
    (e : Event RegistryStep) : Stored id (e :: es) := by
  obtain ⟨u, room, hwrote, hid⟩ := h
  exact ⟨u, room, hwrote.cons e, hid⟩

theorem Failed.cons {es : List (Event RegistryStep)} (h : Failed t es)
    (e : Event RegistryStep) : Failed t (e :: es) := by
  obtain ⟨l, hl⟩ := h
  exact ⟨l, List.mem_cons_of_mem e hl⟩

theorem failed_head (l : RegistryStep) (es : List (Event RegistryStep)) :
    Failed t (.failed t l :: es) := ⟨l, List.mem_cons_self⟩

/-- An event that is no write of the thread leaves what the thread wrote. -/
theorem wrote_own_iff {room : ControlPlaneRoom} {es : List (Event RegistryStep)}
    {e : Event RegistryStep} (he : ∀ room, e ≠ .ran t (.wrote room)) :
    Wrote t room (e :: es) ↔ Wrote t room es := by
  constructor
  · intro h
    rcases List.mem_cons.mp h with heq | h
    · exact absurd heq.symm (he room)
    · exact h
  · exact fun h => h.cons e

theorem Created.cons {room : ControlPlaneRoom} {es : List (Event RegistryStep)}
    (h : Created isDate H t input iso room es) {e : Event RegistryStep}
    (he : ∀ room, e ≠ .ran t (.wrote room)) : Created isDate H t input iso room (e :: es) :=
  { h with wrote := fun other => (wrote_own_iff he).trans (h.wrote other) }

theorem created_stable (room : ControlPlaneRoom) : RegistryStable process t fun x =>
    Created isDate H t input iso room x.trace := by
  intro e x w hforeign _ _ _ h
  apply h.cons
  rintro room rfl
  exact hforeign rfl

theorem NotCreated.cons {failure : Failure} {es : List (Event RegistryStep)}
    (h : NotCreated isDate H t input failure es) {e : Event RegistryStep}
    (he : ∀ room, e ≠ .ran t (.wrote room)) : NotCreated isDate H t input failure (e :: es) := by
  rcases h with ⟨hrefused, hnot⟩ | ⟨metadata, hok, hexists, hnot, hstored⟩ | hfailed
  · exact .inl ⟨hrefused, hnot.cons he⟩
  · exact .inr (.inl ⟨metadata, hok, hexists, hnot.cons he, hstored.cons e⟩)
  · exact .inr (.inr (hfailed.cons e))

theorem notCreated_stable (failure : Failure) : RegistryStable process t fun x =>
    NotCreated isDate H t input failure x.trace := by
  intro e x w hforeign _ _ _ h
  apply h.cons
  rintro room rfl
  exact hforeign rfl

/-- Whether the file is there, for the holder of the lock. -/
theorem fileExists_safe (id : String) :
    RegistrySafe process t
      (fun found x => x.world.lock = some t ∧ NotYet t x.trace ∧
        if found then Stored id x.trace else x.world.files.get? id = none)
      (fun _ x => x.world.lock = some t ∧ Failed t x.trace) (fileExists id)
      fun x => x.world.lock = some t ∧ NotYet t x.trace := by
  have hnot {l : RegistryStep} (hl : ∀ room, l ≠ .wrote room)
      {x : Snapshot RegistryWorld RegistryStep} (h : NotYet t x.trace) :
      NotYet t (.ran t l :: x.trace) := by
    apply h.cons
    intro room heq
    injection heq with _ hwrote
    exact hl room hwrote
  refine Contract.Safe.catchErr
    (R := fun e x => x.world.lock = some t ∧ NotYet t x.trace ∧
      ((e = .notFound ∧ x.world.files.get? id = none) ∨ (e ≠ .notFound ∧ Failed t x.trace)))
    (Contract.Safe.bind (R := fun _ x => x.world.lock = some t ∧ NotYet t x.trace ∧
      Stored id x.trace) ?_ fun _ => .done fun _ _ h => h) fun e => ?_
  · refine query_safe (lock_stable.and notYet_stable) (fun _ h => by cases h) ?_ ?_ ?_
    · intro x bytes hx hp hresult
      have hstored : Stored id x.trace := by
        cases hget : x.world.files.get? id with
        | none =>
            rw [hget] at hresult
            cases hresult
        | some found => exact hx.stored id found hget
      exact ⟨hp.1, hnot (fun _ h => by cases h) hp.2, hstored.cons _⟩
    · intro x e hx hp hresult
      cases hget : x.world.files.get? id with
      | none =>
          rw [hget] at hresult
          exact ⟨hp.1, hnot (fun _ h => by cases h) hp.2,
            .inl ⟨(Except.error.inj hresult).symm, hget⟩⟩
      | some found =>
          rw [hget] at hresult
          cases hresult
    · intro x hp
      exact ⟨hp.1, hp.2.cons (fun _ h => by cases h),
        .inr ⟨(fun h => by cases h), failed_head _ _⟩⟩
  · by_cases he : e = .notFound
    · rw [if_pos he]
      rintro x - ⟨hlock, hyet, ⟨-, hnone⟩ | ⟨hne, -⟩⟩
      · exact ⟨hlock, hyet, by simpa using hnone⟩
      · exact absurd he hne
    · rw [if_neg he]
      rintro x - ⟨hlock, -, ⟨heq, -⟩ | ⟨-, hfailed⟩⟩
      · exact absurd heq he
      · exact ⟨hlock, hfailed⟩

/-- The thread holds the lock, has written nothing, and there is no record of the room. -/
def Reserved (t : Nat) (id : String) (x : Snapshot RegistryWorld RegistryStep) : Prop :=
  (x.world.lock = some t ∧ x.world.files.get? id = none) ∧ NotYet t x.trace

theorem reserved_stable (id : String) : RegistryStable process t (Reserved t id) :=
  (absent_stable id).and notYet_stable

/-- The record is written where the holder of the lock found none. -/
theorem writeRecord_safe {room : ControlPlaneRoom} (hsafe : isSafeSlug room.roomId = true) :
    RegistrySafe process t
      (fun _ x => x.world.lock = some t ∧ ∀ other, Wrote t other x.trace ↔ other = room)
      (fun _ x => x.world.lock = some t ∧ Failed t x.trace) (writeRecord room)
      (Reserved t room.roomId) := by
  have hdir : RegistrySafe process t (fun _ => Reserved t room.roomId)
      (fun _ x => x.world.lock = some t ∧ Failed t x.trace) ensureRoomsDir
      (Reserved t room.roomId) := by
    refine query_safe (reserved_stable _) (fun _ h => by cases h) (fun x _ _ hp _ => ?_)
      (fun _ _ _ _ h => by cases h) fun _ hp => ⟨hp.1.1, failed_head _ _⟩
    exact ⟨hp.1, hp.2.cons fun _ h => by cases h⟩
  refine hdir.bind fun _ => ?_
  refine Contract.Safe.action (reserved_stable _) (fun x hx hp _ _ => ?_)
    (fun x _ _ hp _ _ _ => ⟨hp.1.1, fun other => ?_⟩) (fun _ _ _ _ _ _ h => by cases h)
    fun x e hx hp _ _ => ⟨failed_keeps hx _, hp.1.1, failed_head _ _⟩
  · refine ⟨hx.write hsafe hp.1.2, fun u hforeign hu => ?_⟩
    rw [hp.1.1] at hu
    exact absurd (Option.some.inj hu) hforeign
  · constructor
    · intro hwrote
      rcases List.mem_cons.mp hwrote with heq | hwrote
      · injection heq with _ heq
        injection heq with heq
      · exact absurd hwrote (hp.2 other)
    · rintro rfl
      exact List.mem_cons_self

/-- What a creator ends with. -/
theorem createControlPlaneRoom_safe :
    RegistrySafe process t (fun room x => Created isDate H t input iso room x.trace)
      (fun e x => NotCreated isDate H t input e x.trace)
      (createControlPlaneRoom isDate H t input iso) fun x => NotYet t x.trace := by
  unfold createControlPlaneRoom
  refine .bind_ofExcept (fun metadata hmetadata => ?_) fun e he x _ hp => .inl ⟨he, hp⟩
  have hsafe : isSafeSlug metadata.roomId = true :=
    (sanitizeInput_ok_iff.mp hmetadata).2.2.roomIdSafe
  refine .bind_ofExcept (fun _ _ => ?_) fun e he => ?_
  swap
  · rw [assertSafeSlug_ok_iff.mpr hsafe] at he
    cases he
  have hdir : RegistrySafe process t (fun _ x => NotYet t x.trace)
      (fun e x => NotCreated isDate H t input e x.trace) ensureRoomsDir
      fun x => NotYet t x.trace := by
    refine query_safe notYet_stable (fun _ h => by cases h) (fun x _ _ hp _ => ?_)
      (fun _ _ _ _ h => by cases h) fun _ _ => .inr (.inr (failed_head _ _))
    exact hp.cons fun _ h => by cases h
  refine hdir.bind fun _ => ?_
  refine withRegistryLock_safe (B := fun x => NotYet t x.trace) notYet_stable
    created_stable notCreated_stable
    (fun x _ hp => hp.cons fun _ h => by cases h) (fun _ _ h => h.cons fun _ heq => by cases heq)
    (fun _ _ h => h.cons fun _ heq => by cases heq)
    (fun _ _ => .inr (.inr (failed_head _ _))) ?_
  have hfailed {e : Failure} {x : Snapshot RegistryWorld RegistryStep}
      (h : x.world.lock = some t ∧ Failed t x.trace) :
      x.world.lock = some t ∧ NotCreated isDate H t input e x.trace := ⟨h.1, .inr (.inr h.2)⟩
  refine ((fileExists_safe metadata.roomId).conseq (fun _ _ h => h) (fun _ _ _ h => h)
    fun _ _ _ h => hfailed h).bind fun found => ?_
  cases found with
  | true =>
      rintro x - ⟨hlock, hyet, hstored⟩
      exact ⟨hlock, .inr (.inl ⟨metadata, hmetadata, rfl, hyet, by simpa using hstored⟩)⟩
  | false =>
      refine (((@writeRecord_safe process t ⟨metadata, iso, iso⟩ hsafe).conseq
        (fun _ _ h => ⟨⟨h.1, by simpa using h.2.2⟩, h.2.1⟩) (fun _ _ _ h => h)
        fun _ _ _ h => hfailed h)).bind fun _ => .done fun x _ h => ?_
      exact ⟨h.1, hmetadata, rfl, rfl, h.2⟩

end Creating

/-! ## Reading -/

section Reading

variable {process : Nat → Nat} {t : Nat} {id : String}

/-- What was read is the record that some thread has written. -/
def ReadOf (id : String) (value : Json) (es : List (Event RegistryStep)) : Prop :=
  ∃ u room, Wrote u room es ∧ room.roomId = id ∧ value = room.toJson

/-- There was no record of the room when the thread looked. -/
def WasAbsent (t : Nat) (id : String) (es : List (Event RegistryStep)) : Prop :=
  ∃ before, .ran t (.read id) :: before <:+ es ∧ ¬ Stored id before

/-- The id is no safe one, or there was no record, or a step has failed. -/
def NotRead (t : Nat) (id : String) (e : Failure) (es : List (Event RegistryStep)) : Prop :=
  assertSafeSlug id "room id" = .error e ∨ (e = noMetadata id ∧ WasAbsent t id es) ∨ Failed t es

theorem NotRead.cons {failure : Failure} {es : List (Event RegistryStep)}
    (h : NotRead t id failure es) (e : Event RegistryStep) : NotRead t id failure (e :: es) := by
  rcases h with hunsafe | ⟨hfailure, before, hbefore, habsent⟩ | hfailed
  · exact .inl hunsafe
  · exact .inr (.inl ⟨hfailure, before, hbefore.trans (List.suffix_cons e es), habsent⟩)
  · exact .inr (.inr (hfailed.cons e))

theorem ReadOf.cons {value : Json} {es : List (Event RegistryStep)} (h : ReadOf id value es)
    (e : Event RegistryStep) : ReadOf id value (e :: es) := by
  obtain ⟨u, room, hwrote, hrest⟩ := h
  exact ⟨u, room, hwrote.cons e, hrest⟩

theorem notYet_ran {l : RegistryStep} {es : List (Event RegistryStep)} (h : NotYet t es)
    (hl : ∀ room, l ≠ .wrote room) : NotYet t (.ran t l :: es) := by
  apply h.cons
  intro room heq
  injection heq with _ hwrote
  exact hl room hwrote

theorem knownStored_stable {known : Prop} : RegistryStable process t fun x =>
    NotYet t x.trace ∧ (known → Stored id x.trace) :=
  notYet_stable.and (@lasting_stable process t (fun es => known → Stored id es)
    fun e _ h hknown => (h hknown).cons e)

/-- What a reader ends with.  Of a room that is known to be stored the record is read, unless
a step fails. -/
theorem readControlPlaneRoom_safe (known : Prop) :
    RegistrySafe process t (fun value x => NotYet t x.trace ∧ ReadOf id value x.trace)
      (fun e x => NotYet t x.trace ∧ NotRead t id e x.trace ∧ (known → Failed t x.trace))
      (readControlPlaneRoom id) fun x => NotYet t x.trace ∧ (known → Stored id x.trace) := by
  unfold readControlPlaneRoom
  refine .bind_ofExcept (fun _ _ => ?_) fun e he x hx hp => ⟨hp.1, .inl he, fun hknown => ?_⟩
  swap
  · obtain ⟨u, room, hwrote, rfl⟩ := hp.2 hknown
    rw [assertSafeSlug_ok_iff.mpr (hx.written u room hwrote).1] at he
    cases he
  refine Contract.Safe.bind
    (R := fun bytes x => NotYet t x.trace ∧ ∃ room : ControlPlaneRoom,
      bytes = JsonFile.bytes room.toJson ∧ ReadOf id room.toJson x.trace) ?_ fun bytes => ?_
  · refine Contract.Safe.catchErr (R := fun e x => NotYet t x.trace ∧
      ((e = .notFound ∧ ¬ known ∧ WasAbsent t id x.trace) ∨
        (e ≠ .notFound ∧ Failed t x.trace))) ?_ fun e => ?_
    · refine query_safe knownStored_stable (fun _ h => by cases h) ?_ ?_ ?_
      · intro x bytes hx hp hresult
        refine ⟨notYet_ran hp.1 (fun _ h => by cases h), ?_⟩
        cases hget : x.world.files.get? id with
        | none =>
            rw [hget] at hresult
            cases hresult
        | some found =>
            rw [hget] at hresult
            obtain rfl := Except.ok.inj hresult
            obtain ⟨u, room, hwrote, rfl⟩ := hx.stored id found hget
            have hstored := (hx.written u room hwrote).2
            rw [hget] at hstored
            exact ⟨room, Option.some.inj hstored, u, room, hwrote.cons _, rfl, rfl⟩
      · intro x e hx hp hresult
        refine ⟨notYet_ran hp.1 (fun _ h => by cases h), .inl ?_⟩
        cases hget : x.world.files.get? id with
        | some found =>
            rw [hget] at hresult
            cases hresult
        | none =>
            rw [hget] at hresult
            have habsent : ¬ Stored id x.trace := by
              rintro ⟨u, room, hwrote, rfl⟩
              rw [(hx.written u room hwrote).2] at hget
              cases hget
            exact ⟨(Except.error.inj hresult).symm, fun hknown => habsent (hp.2 hknown),
              x.trace, List.suffix_rfl, habsent⟩
      · intro x hp
        exact ⟨hp.1.cons (fun _ h => by cases h),
          .inr ⟨(fun h => by cases h), failed_head _ _⟩⟩
    · rintro x - ⟨hyet, ⟨rfl, hunknown, habsent⟩ | ⟨hne, hfailed⟩⟩
      · exact ⟨hyet, .inr (.inl ⟨if_pos rfl, habsent⟩), fun hknown => absurd hknown hunknown⟩
      · exact ⟨hyet, .inr (.inr hfailed), fun _ => hfailed⟩
  · cases hread : JsonFile.read bytes with
    | some value =>
        rintro x - ⟨hyet, room, rfl, hof⟩
        rw [JsonFile.read_bytes room.clean_toJson.valid] at hread
        obtain rfl := Option.some.inj hread
        exact ⟨hyet, hof⟩
    | none =>
        rintro x - ⟨-, room, rfl, -⟩
        rw [JsonFile.read_bytes room.clean_toJson.valid] at hread
        cases hread

/-- The records that were read are those of the ids, in their order. -/
def ReadAll (ids : List String) (values : List Json) (es : List (Event RegistryStep)) : Prop :=
  List.Forall₂ (fun id value => ReadOf id value es) ids values

theorem ReadAll.cons {ids : List String} {values : List Json} {es : List (Event RegistryStep)}
    (h : ReadAll ids values es) (e : Event RegistryStep) : ReadAll ids values (e :: es) :=
  h.imp fun _ _ hread => hread.cons e

theorem readRooms_safe (ids : List String) :
    RegistrySafe process t (fun values x => NotYet t x.trace ∧ ReadAll ids values x.trace)
      (fun _ x => NotYet t x.trace ∧ Failed t x.trace) (readRooms ids)
      fun x => NotYet t x.trace ∧ ∀ id ∈ ids, Stored id x.trace := by
  induction ids with
  | nil => exact .done fun x _ hp => ⟨hp.1, .nil⟩
  | cons id ids ih =>
      have hrest : Contract.Lasting
          fun x : Snapshot RegistryWorld RegistryStep => ∀ id ∈ ids, Stored id x.trace :=
        fun x e w h id hid => (h id hid).cons e
      have hfirst (value : Json) : Contract.Lasting
          fun x : Snapshot RegistryWorld RegistryStep => ReadOf id value x.trace :=
        fun x e w h => h.cons e
      refine (((readControlPlaneRoom_safe True).frame hrest).conseq
        (fun x _ hp => ⟨⟨hp.1, fun _ => hp.2 id List.mem_cons_self⟩,
          fun other hother => hp.2 other (List.mem_cons_of_mem id hother)⟩)
        (fun _ _ _ h => h) fun e x _ h => ⟨h.1.1, h.1.2.2 trivial⟩).bind fun value => ?_
      refine ((ih.frame (hfirst value)).conseq (fun x _ hp => ⟨⟨hp.1.1, hp.2⟩, hp.1.2⟩)
        (fun _ _ _ h => h) fun e x _ h => h.1).bind fun values => ?_
      exact .done fun x _ h => ⟨h.1.1, List.Forall₂.cons h.2 h.1.2⟩

/-- The list was read of the ids that were there at some moment, in order. -/
def Listed (t : Nat) (values : List Json) (es : List (Event RegistryStep)) : Prop :=
  ∃ ids before, .ran t .listed :: before <:+ es ∧ ids.Pairwise (· < ·) ∧
    (∀ id, id ∈ ids ↔ Stored id before) ∧ ReadAll ids values es

theorem Listed.cons {values : List Json} {es : List (Event RegistryStep)}
    (h : Listed t values es) (e : Event RegistryStep) : Listed t values (e :: es) := by
  obtain ⟨ids, before, hbefore, hsorted, hids, hread⟩ := h
  exact ⟨ids, before, hbefore.trans (List.suffix_cons e es), hsorted, hids, hread.cons e⟩

/-- The ids of the directory, in order. -/
theorem sortedKeys_pairwise (w : RegistryWorld) :
    (w.files.keys.mergeSort fun a b => decide (a ≤ b)).Pairwise (· < ·) := by
  have hle := @List.pairwise_mergeSort String (fun a b => decide (a ≤ b))
    (fun a b c hab hbc => by simpa using le_trans (by simpa using hab) (by simpa using hbc))
    (fun a b => by simpa using le_total a b) w.files.keys
  have hnodup : (w.files.keys.mergeSort fun a b => decide (a ≤ b)).Nodup :=
    (List.mergeSort_perm _ _).nodup_iff.mpr w.files.keys_nodup
  refine (hle.and hnodup).imp fun {a b} h => ?_
  exact lt_of_le_of_ne (by simpa using h.1) h.2

theorem mem_sortedKeys_iff {x : Snapshot RegistryWorld RegistryStep} (hx : RegistryInv x)
    (id : String) : id ∈ x.world.files.keys.mergeSort (fun a b => decide (a ≤ b)) ↔
      Stored id x.trace := by
  rw [List.mem_mergeSort]
  constructor
  · intro hid
    cases hget : x.world.files.get? id with
    | none => exact absurd hid (OrderedMap.get?_eq_none_iff.mp hget)
    | some bytes => exact hx.stored id bytes hget
  · rintro ⟨u, room, hwrote, rfl⟩
    exact OrderedMap.mem_keys_of_get? (hx.written u room hwrote).2

theorem listControlPlaneRooms_safe :
    RegistrySafe process t (fun values x => NotYet t x.trace ∧ Listed t values x.trace)
      (fun _ x => NotYet t x.trace ∧ Failed t x.trace) listControlPlaneRooms
      fun x => NotYet t x.trace := by
  unfold listControlPlaneRooms
  refine Contract.Safe.bind (R := fun ids x => (NotYet t x.trace ∧ ∀ id ∈ ids, Stored id x.trace) ∧
    ∃ before, .ran t .listed :: before <:+ x.trace ∧ ids.Pairwise (· < ·) ∧
      ∀ id, id ∈ ids ↔ Stored id before) ?_ fun ids => ?_
  · refine query_safe notYet_stable (fun _ h => by cases h) ?_ (fun _ _ _ _ h => by cases h)
      fun x hp => ⟨hp.cons (fun _ h => by cases h), failed_head _ _⟩
    intro x ids hx hp hresult
    obtain rfl := Except.ok.inj hresult
    have hsorted := sortedKeys_pairwise x.world
    have hids := mem_sortedKeys_iff hx
    exact ⟨⟨notYet_ran hp (fun _ h => by cases h), fun id hid => ((hids id).mp hid).cons _⟩,
      x.trace, List.suffix_rfl, hsorted, hids⟩
  · have hmoment : Contract.Lasting fun x : Snapshot RegistryWorld RegistryStep =>
        ∃ before, .ran t .listed :: before <:+ x.trace ∧ ids.Pairwise (· < ·) ∧
          ∀ id, id ∈ ids ↔ Stored id before := by
      rintro x e w ⟨before, hbefore, hrest⟩
      exact ⟨before, hbefore.trans (List.suffix_cons e x.trace), hrest⟩
    refine ((readRooms_safe ids).frame hmoment).conseq (fun _ _ h => h) ?_ fun _ _ _ h => h.1
    rintro values x - ⟨⟨hyet, hread⟩, before, hbefore, hsorted, hids⟩
    exact ⟨hyet, ids, before, hbefore, hsorted, hids, hread⟩

end Reading

/-! ## Runs -/

section Runs

variable {isDate : String → Bool} {H : HostParser} {process : Nat → Nat}
  {calls : List RegistryCall}

/-- What a call has returned is what it created, or what others did. -/
def Replied (isDate : String → Bool) (H : HostParser) (t : Nat) (call : RegistryCall)
    (reply : RegistryReply) (es : List (Event RegistryStep)) : Prop :=
  match call, reply with
  | .create input iso, .created room => Created isDate H t input iso room es
  | .read id, .record value => NotYet t es ∧ ReadOf id value es
  | .list, .records values => NotYet t es ∧ Listed t values es
  | _, _ => False

/-- Why a call has thrown. -/
def Thrown (isDate : String → Bool) (H : HostParser) (t : Nat) (call : RegistryCall)
    (e : Failure) (es : List (Event RegistryStep)) : Prop :=
  match call with
  | .create input _ => NotCreated isDate H t input e es
  | .read id => NotYet t es ∧ NotRead t id e es
  | .list => NotYet t es ∧ Failed t es

theorem replied_stable (t : Nat) (call : RegistryCall) (reply : RegistryReply) :
    RegistryStable process t fun x => Replied isDate H t call reply x.trace := by
  intro e x w hforeign hx hx' hguar h
  cases call with
  | create input iso =>
      cases reply with
      | created room => exact created_stable room e x w hforeign hx hx' hguar h
      | record | records => exact h
  | read id =>
      cases reply with
      | record value =>
          exact ⟨notYet_stable e x w hforeign hx hx' hguar h.1, ReadOf.cons h.2 e⟩
      | created | records => exact h
  | list =>
      cases reply with
      | records values =>
          exact ⟨notYet_stable e x w hforeign hx hx' hguar h.1, Listed.cons h.2 e⟩
      | created | record => exact h

theorem thrown_stable (t : Nat) (call : RegistryCall) (failure : Failure) :
    RegistryStable process t fun x => Thrown isDate H t call failure x.trace := by
  intro e x w hforeign hx hx' hguar h
  cases call with
  | create input iso => exact notCreated_stable failure e x w hforeign hx hx' hguar h
  | read id => exact ⟨notYet_stable e x w hforeign hx hx' hguar h.1, NotRead.cons h.2 e⟩
  | list => exact ⟨notYet_stable e x w hforeign hx hx' hguar h.1, Failed.cons h.2 e⟩

theorem call_safe (t : Nat) (call : RegistryCall) :
    RegistrySafe process t (fun reply x => Replied isDate H t call reply x.trace)
      (fun e x => Thrown isDate H t call e x.trace) (call.prog isDate H t)
      fun x => NotYet t x.trace := by
  cases call with
  | create input iso => exact createControlPlaneRoom_safe.bind fun room => .done fun _ _ h => h
  | read id =>
      refine ((readControlPlaneRoom_safe False).conseq (fun _ _ hp => ⟨hp, False.elim⟩)
        (fun _ _ _ h => h) fun _ _ _ h => ⟨h.1, h.2.1⟩).bind fun value => .done fun _ _ h => h
  | list => exact listControlPlaneRooms_safe.bind fun values => .done fun _ _ h => h

theorem registry_holds : (registryContract (registrySystem process)).HoldsTo
    (registrySystem process)
    (fun t reply x => ∀ call, calls[t]? = some call → Replied isDate H t call reply x.trace)
    (fun t e x => ∀ call, calls[t]? = some call → Thrown isDate H t call e x.trace)
    (registry isDate H calls) := by
  have hinv : RegistryInv (registry isDate H calls).snap := by
    refine ⟨fun _ _ h => ?_, fun _ _ h => ?_, fun _ _ _ _ h => ?_⟩
    · cases h
    · cases h
    · cases h
  refine ⟨hinv, fun t p hp => ?_⟩
  simp only [System.thread, registry, List.getElem?_mapIdx] at hp
  cases hcall : calls[t]? with
  | none => simp [hcall] at hp
  | some call =>
      obtain rfl : call.prog isDate H t = p := by simpa [hcall] using hp
      have hsame {other : RegistryCall} (hother : calls[t]? = some other) : other = call :=
        Option.some.inj (hother.symm.trans hcall)
      refine .of_safe ((call_safe t call).conseq (fun _ _ h => h)
        (fun reply x _ h other hother => ?_) fun e x _ h other hother => ?_) hinv ?_
      · rwa [hsame hother]
      · rwa [hsame hother]
      · intro room h
        cases h

/-- A process that is gone leaves the lock to others. -/
theorem registry_crashSafe :
    (registryContract (registrySystem process)).CrashSafe (registrySystem process) := by
  intro p damage hdamage x hx _
  obtain rfl := Option.some.inj hdamage
  refine ⟨hx.quiet (fun _ _ h => by cases h) rfl, fun t hforeign hlock => ⟨?_, rfl⟩⟩
  have hne : process t ≠ p := hforeign
  simp [hlock, hne]

/-- No step of any call has failed, and no process is gone. -/
def Undisturbed (es : List (Event RegistryStep)) : Prop := ∀ e ∈ es, e.isRan = true

/-- Of the calls that would create a room exactly one has, if nothing disturbs them. -/
theorem one_creator {c : Config RegistryWorld RegistryStep Failure RegistryReply}
    (hinv : RegistryInv c.snap)
    (hreplied : ∀ t call reply, calls[t]? = some call → System.thread c t = some (.ret reply) →
      Replied isDate H t call reply c.snap.trace)
    (hthrown : ∀ t call e, calls[t]? = some call → System.thread c t = some (.err e) →
      Thrown isDate H t call e c.snap.trace)
    (hquiet : Undisturbed c.snap.trace)
    (hover : ∀ t call, calls[t]? = some call → ∃ p, System.thread c t = some p ∧ p.isOver = true)
    (hcalled : ∀ t p, System.thread c t = some p → ∃ call, calls[t]? = some call)
    (hwriter : ∀ t room, Wrote t room c.snap.trace → ∃ p, System.thread c t = some p)
    {t : Nat} {input : Json} {iso : String} {metadata : RoomMetadata}
    (hcall : calls[t]? = some (.create input iso))
    (hok : sanitizeInput isDate H input = .ok metadata) :
    ∃! u, ∃ room, System.thread c u = some (.ret (.created room)) ∧
      room.roomId = metadata.roomId := by
  have hnotFailed (u : Nat) : ¬ Failed u c.snap.trace := by
    rintro ⟨l, hl⟩
    cases hquiet _ hl
  have hreturned {u : Nat} {room : ControlPlaneRoom} (hwrote : Wrote u room c.snap.trace) :
      System.thread c u = some (.ret (.created room)) := by
    obtain ⟨q, hq⟩ := hwriter u room hwrote
    obtain ⟨call, hu⟩ := hcalled u q hq
    obtain ⟨p, hp, hdone⟩ := hover u call hu
    cases p with
    | act => cases hdone
    | ret reply =>
        have h := hreplied u call reply hu hp
        cases call with
        | create input' iso' =>
            cases reply with
            | created other => rw [hp, (h.wrote room).mp hwrote]
            | record | records => cases h
        | read id =>
            cases reply with
            | record value => exact absurd hwrote (h.1 room)
            | created | records => cases h
        | list =>
            cases reply with
            | records values => exact absurd hwrote (h.1 room)
            | created | record => cases h
    | err e =>
        have h := hthrown u call e hu hp
        cases call with
        | create input' iso' =>
            rcases h with ⟨-, hyet⟩ | ⟨-, -, -, hyet, -⟩ | hfailed
            · exact absurd hwrote (hyet room)
            · exact absurd hwrote (hyet room)
            · exact absurd hfailed (hnotFailed u)
        | read id => exact absurd hwrote (h.1 room)
        | list => exact absurd hwrote (h.1 room)
  have hstored : Stored metadata.roomId c.snap.trace := by
    obtain ⟨p, hp, hdone⟩ := hover t _ hcall
    cases p with
    | act => cases hdone
    | ret reply =>
        have h := hreplied t _ reply hcall hp
        cases reply with
        | record | records => cases h
        | created room =>
            have hsame : room.toRoomMetadata = metadata :=
              Except.ok.inj (h.sanitized.symm.trans hok)
            exact ⟨t, room, (h.wrote room).mpr rfl, congrArg RoomMetadata.roomId hsame⟩
    | err e =>
        rcases hthrown t _ e hcall hp with ⟨hrefused, -⟩ | ⟨other, hother, -, -, hstored⟩ | hfailed
        · rw [hok] at hrefused
          cases hrefused
        · obtain rfl := Except.ok.inj (hok.symm.trans hother)
          exact hstored
        · exact absurd hfailed (hnotFailed t)
  obtain ⟨u, room, hwrote, hid⟩ := hstored
  refine ⟨u, ⟨room, hreturned hwrote, hid⟩, ?_⟩
  rintro v ⟨room', hv, hid'⟩
  obtain ⟨call, hcall'⟩ := hcalled v _ hv
  have h := hreplied v call _ hcall' hv
  cases call with
  | create input' iso' =>
      have hwrote' : Wrote v room' c.snap.trace := (h.wrote room').mpr rfl
      exact (hinv.once v u room' room hwrote' hwrote (hid'.trans hid.symm)).1
  | read | list => cases h

/-- In every run every call is on the way to end as it should, or has done so. -/
theorem registry_ends {c : Config RegistryWorld RegistryStep Failure RegistryReply}
    (h : (registrySystem process).Reachable (registry isDate H calls) c) :
    (registryContract (registrySystem process)).HoldsTo (registrySystem process)
      (fun t reply x => ∀ call, calls[t]? = some call → Replied isDate H t call reply x.trace)
      (fun t e x => ∀ call, calls[t]? = some call → Thrown isDate H t call e x.trace) c :=
  Contract.ends_sound registry_holds registry_crashSafe
    (fun t reply e x w hf hi hi' hg hp call hcall =>
      replied_stable t call reply e x w hf hi hi' hg (hp call hcall))
    (fun t failure e x w hf hi hi' hg hp call hcall =>
      thrown_stable t call failure e x w hf hi hi' hg (hp call hcall)) h

end Runs

/-- Two creators of one room, and who looks what there is. -/
def launchCalls : List RegistryCall :=
  [.create launchInput "t0", .create launchInput "t1", .list]

end AgentGather.Platform
