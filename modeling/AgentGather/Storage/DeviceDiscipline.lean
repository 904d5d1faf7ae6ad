import AgentGather.Storage.Device

/-!
# The discipline of the joined rooms

Rows change only under their lock and only as a call says, and a snapshot goes only by the
call that deletes its row.  A snapshot without a row is owed: some call has deleted the row
and has still to remove the snapshot.
-/

namespace AgentGather.Storage

open AgentGather.Library AgentGather.Protocol

/-! ## What a call does to the rows -/

/-- The rows a call leaves. -/
def DeviceCall.rowsAfter (rooms : List JoinedRoom) : DeviceCall → List JoinedRoom
  | .recordJoinedRoom entry => upsertJoinedRoom rooms entry false
  | .refreshJoinedRoomMetadata entry => upsertJoinedRoom rooms entry true
  | .setJoinedRoomArchived target archived =>
      Table.modify JoinedRoom.target target (.setArchived archived) rooms
  | .setJoinedRoomsArchived targets archived =>
      archiveRooms (dedupeTargets targets) archived rooms
  | .deleteJoinedRoom target => rooms.filter fun room => room.target != target
  | .deleteJoinedRooms targets => deleteRooms (dedupeTargets targets) rooms
  | .recordJoinedHistory _ => rooms

/-- The rooms a call deletes. -/
def DeviceCall.deleted : DeviceCall → List JoinedRoomTarget
  | .deleteJoinedRoom target => [target]
  | .deleteJoinedRooms targets => targets
  | _ => []

theorem deleteRooms_eq (targets : List JoinedRoomTarget) (rooms : List JoinedRoom) :
    deleteRooms (dedupeTargets targets) rooms =
      Table.besides JoinedRoom.target targets rooms := by
  rw [deleteRooms, Table.besides]
  apply List.filter_congr
  intro room _
  rw [isTargeted_dedupeTargets, decide_not]

theorem filter_target_eq (target : JoinedRoomTarget) (rooms : List JoinedRoom) :
    (rooms.filter fun room => room.target != target) =
      Table.besides JoinedRoom.target [target] rooms := by
  rw [Table.besides]
  apply List.filter_congr
  intro room _
  by_cases h : room.target = target
  · simp [h]
  · simp [h]

theorem map_target_archiveRooms (targets : List JoinedRoomTarget) (archived : Bool)
    (rooms : List JoinedRoom) :
    (archiveRooms (dedupeTargets targets) archived rooms).map JoinedRoom.target =
      rooms.map JoinedRoom.target := by
  rw [archiveRooms, List.map_map]
  apply List.map_congr_left
  intro room _
  simp only [Function.comp_apply]
  split
  · rfl
  · rfl

/-- A row goes only by a call that deletes it. -/
theorem DeviceCall.mem_rowsAfter (call : DeviceCall) {rooms : List JoinedRoom}
    {key : JoinedRoomTarget} (h : key ∈ rooms.map JoinedRoom.target) :
    key ∈ (call.rowsAfter rooms).map JoinedRoom.target ∨ key ∈ call.deleted := by
  have hupsert (entry : JoinedRoom) (keep : Bool) :
      key ∈ (upsertJoinedRoom rooms entry keep).map JoinedRoom.target :=
    Table.mem_map_key_upsert h _
  have hbesides (targets : List JoinedRoomTarget) :
      key ∈ (Table.besides JoinedRoom.target targets rooms).map JoinedRoom.target ∨
        key ∈ targets := by
    by_cases hkey : key ∈ targets
    · exact .inr hkey
    · obtain ⟨row, hrow, rfl⟩ := List.mem_map.mp h
      exact .inl (List.mem_map_of_mem (List.mem_filter.mpr ⟨hrow, by simpa using hkey⟩))
  cases call with
  | recordJoinedRoom entry => exact .inl (hupsert entry false)
  | refreshJoinedRoomMetadata entry => exact .inl (hupsert entry true)
  | setJoinedRoomArchived target archived =>
      left
      rw [rowsAfter, Table.map_key_modify _ (JoinedRoom.setArchived_target archived)]
      exact h
  | setJoinedRoomsArchived targets archived =>
      left
      rw [rowsAfter, map_target_archiveRooms]
      exact h
  | deleteJoinedRoom target =>
      rw [rowsAfter, filter_target_eq]
      exact hbesides [target]
  | deleteJoinedRooms targets =>
      rw [rowsAfter, deleteRooms_eq]
      exact hbesides targets
  | recordJoinedHistory entry => exact .inl h

/-! ## The contract -/

section Contract

variable (digest : List Char → String) (calls : List DeviceCall)

/-- A row's snapshot has this path. -/
def HasRow (path : String) (rooms : List JoinedRoom) : Prop :=
  ∃ key ∈ rooms.map JoinedRoom.target, joinedHistoryPath digest key = path

/-- Caller `t` has deleted a row with this path and has still to remove its snapshot. -/
structure Owes (t : Nat) (path : String) (es : List (Event DeviceStep)) : Prop where
  deletes : ∃ call key, calls[t]? = some call ∧ key ∈ call.deleted ∧
    joinedHistoryPath digest key = path
  wrote : ∃ rooms, .ran t (.wroteRooms rooms) ∈ es
  notRemoved : .ran t (.removedSnapshot path) ∉ es

/-- The snapshot has a row, or some caller owes its removal. -/
def Owned (x : Snapshot DeviceWorld DeviceStep) (path : String) : Prop :=
  HasRow digest path x.world.rooms ∨ ∃ t, Owes digest calls t path x.trace

/-- What every event leaves to the others. -/
structure DeviceGuar (process : Nat → Nat) (e : Event DeviceStep)
    (x : Snapshot DeviceWorld DeviceStep) (w : DeviceWorld) : Prop where
  locks : ∀ t lock, (deviceSystem process).Foreign t e → x.world.locks lock = some t →
    w.locks lock = some t
  rooms : ∀ t, (deviceSystem process).Foreign t e → x.world.locks .joinedRooms = some t →
    w.rooms = x.world.rooms
  snapshots : ∀ t path, (deviceSystem process).Foreign t e →
    x.world.locks (.history path) = some t → ∀ u, e ≠ .ran u (.removedSnapshot path)
  /-- Rows change as the call of the caller says. -/
  rows : w.rooms = x.world.rooms ∨ ∃ t call, calls[t]? = some call ∧
    e = .ran t (.wroteRooms w.rooms) ∧ w.rooms = call.rowsAfter x.world.rooms
  owned : ∀ path, (∀ u, e ≠ .ran u (.removedSnapshot path)) → Owned digest calls x path →
    Owned digest calls (x.record e w) path
  /-- Only a call that deletes the row removes a snapshot. -/
  removed : ∀ path, (x.world.snapshots path).isSome → w.snapshots path = none →
    ∃ t call key, calls[t]? = some call ∧ key ∈ call.deleted ∧
      joinedHistoryPath digest key = path ∧ e = .ran t (.removedSnapshot path)

/-- Every snapshot is owned. -/
def deviceContract (process : Nat → Nat) : Contract DeviceWorld DeviceStep where
  inv x := ∀ path, (x.world.snapshots path).isSome → Owned digest calls x path
  guar := DeviceGuar digest calls process
  allow := fun _ _ => True

end Contract

section Rules

variable {digest : List Char → String} {calls : List DeviceCall} {process : Nat → Nat}
  {t : Nat} {x : Snapshot DeviceWorld DeviceStep} {e : Event DeviceStep} {w : DeviceWorld}

abbrev DeviceSafe (digest : List Char → String) (calls : List DeviceCall)
    (process : Nat → Nat) (t : Nat) {α : Type}
    (Q : α → Snapshot DeviceWorld DeviceStep → Prop)
    (E : Failure → Snapshot DeviceWorld DeviceStep → Prop) (p : DeviceProg α)
    (P : Snapshot DeviceWorld DeviceStep → Prop) : Prop :=
  (deviceContract digest calls process).Safe (deviceSystem process) t Q E p P

abbrev DeviceStable (digest : List Char → String) (calls : List DeviceCall)
    (process : Nat → Nat) (t : Nat) (P : Snapshot DeviceWorld DeviceStep → Prop) : Prop :=
  (deviceContract digest calls process).Stable (deviceSystem process) t P

theorem Owes.cons {path : String} {es : List (Event DeviceStep)}
    (h : Owes digest calls t path es) (he : e ≠ .ran t (.removedSnapshot path)) :
    Owes digest calls t path (e :: es) where
  deletes := h.deletes
  wrote := by
    obtain ⟨rooms, hwrote⟩ := h.wrote
    exact ⟨rooms, List.mem_cons_of_mem _ hwrote⟩
  notRemoved := by
    rw [List.mem_cons, not_or]
    exact ⟨he.symm, h.notRemoved⟩

/-- What leaves the rows leaves a snapshot owned, unless it removes it. -/
theorem Owned.of_rooms {path : String} (h : Owned digest calls x path)
    (hrooms : w.rooms = x.world.rooms) (he : ∀ u, e ≠ .ran u (.removedSnapshot path)) :
    Owned digest calls (x.record e w) path := by
  rcases h with hrow | ⟨t, howes⟩
  · left
    rw [Snapshot.record_world, hrooms]
    exact hrow
  · exact .inr ⟨t, howes.cons (he t)⟩

/-- An event that writes neither rows nor snapshots. -/
structure StillEvent (e : Event DeviceStep) (x : Snapshot DeviceWorld DeviceStep)
    (w : DeviceWorld) : Prop where
  rooms : w.rooms = x.world.rooms
  snapshots : w.snapshots = x.world.snapshots
  notRemoval : ∀ u path, e ≠ .ran u (.removedSnapshot path)

theorem keeps_still (hx : (deviceContract digest calls process).inv x)
    (h : StillEvent e x w)
    (hlocks : ∀ t lock, (deviceSystem process).Foreign t e → x.world.locks lock = some t →
      w.locks lock = some t) : (deviceContract digest calls process).Keeps e x w := by
  refine ⟨fun path hpath => ?_, ⟨hlocks, fun _ _ _ => h.rooms,
    fun _ path _ _ u => h.notRemoval u path, .inl h.rooms,
    fun path he howned => howned.of_rooms h.rooms he, fun path hsome hnone => ?_⟩⟩
  · rw [Snapshot.record_world, h.snapshots] at hpath
    exact (hx path hpath).of_rooms h.rooms fun u => h.notRemoval u path
  · rw [h.snapshots] at hnone
    rw [hnone] at hsome
    cases hsome

/-- A step that fails changes nothing. -/
theorem keeps_failedStep (hx : (deviceContract digest calls process).inv x) (l : DeviceStep) :
    (deviceContract digest calls process).Keeps (.failed t l) x x.world :=
  keeps_still hx ⟨rfl, rfl, fun _ _ h => nomatch h⟩ fun _ _ _ h => h

/-! ## Assertions -/

/-- Caller `t` holds the lock. -/
def Held (t : Nat) (lock : DeviceLock) (x : Snapshot DeviceWorld DeviceStep) : Prop :=
  x.world.locks lock = some t

/-- A step of caller `t` failed. -/
def Failed (t : Nat) (x : Snapshot DeviceWorld DeviceStep) : Prop :=
  ∃ l, .failed t l ∈ x.trace

/-- Caller `t` has removed the snapshot. -/
def Removed (t : Nat) (path : String) (x : Snapshot DeviceWorld DeviceStep) : Prop :=
  .ran t (.removedSnapshot path) ∈ x.trace

/-- Caller `t` has removed no snapshot yet. -/
def RemovedNone (t : Nat) (x : Snapshot DeviceWorld DeviceStep) : Prop :=
  ∀ path, ¬ Removed t path x

theorem held_stable (lock : DeviceLock) :
    DeviceStable digest calls process t (Held t lock) :=
  fun _ _ _ hf _ _ hguar hheld => hguar.locks t lock hf hheld

theorem failed_lasting : Contract.Lasting (Failed t) :=
  fun _ _ _ ⟨l, hl⟩ => ⟨l, List.mem_cons_of_mem _ hl⟩

theorem removed_lasting (path : String) : Contract.Lasting (Removed t path) :=
  fun _ _ _ h => List.mem_cons_of_mem _ h

theorem lasting_stable {F : Snapshot DeviceWorld DeviceStep → Prop}
    (h : Contract.Lasting F) : DeviceStable digest calls process t F :=
  fun e x w _ _ _ _ hx => h x e w hx

theorem removedNone_record (h : RemovedNone t x)
    (he : ∀ path, e ≠ .ran t (.removedSnapshot path)) : RemovedNone t (x.record e w) := by
  intro path hmem
  rcases List.mem_cons.mp hmem with heq | hmem
  · exact he path heq.symm
  · exact h path hmem

theorem removedNone_stable : DeviceStable digest calls process t (RemovedNone t) := by
  intro e x w hf _ _ _ hx
  refine removedNone_record hx fun path => ?_
  rintro rfl
  exact hf rfl

theorem failed_now (l : DeviceStep) (w : DeviceWorld) :
    Failed t (x.record (.failed t l) w) := ⟨l, List.mem_cons_self⟩

/-! ## Rules for steps -/

variable {P : Snapshot DeviceWorld DeviceStep → Prop} {α : Type}
  {Q : α → Snapshot DeviceWorld DeviceStep → Prop}

/-- A step that writes nothing; `F` is what is known wherever it fails. -/
theorem still_safe {F : Snapshot DeviceWorld DeviceStep → Prop} {l : DeviceStep}
    {result : DeviceWorld → α} (hP : DeviceStable digest calls process t P)
    (hl : ∀ path, l ≠ .removedSnapshot path)
    (hQ : ∀ x, P x → Q (result x.world) (x.record (.ran t l) x.world))
    (hF : ∀ x, P x → F (x.record (.failed t l) x.world)) :
    DeviceSafe digest calls process t Q (fun _ x => Failed t x ∧ F x)
      (Prog.action (fun _ => l) (fun _ => true) id fun w => .ok (result w)) P := by
  refine Contract.Safe.action hP ?_ ?_ (fun _ _ _ _ _ _ h => nomatch h) ?_
  · intro x hx _ _ _
    refine keeps_still hx ⟨rfl, rfl, fun u path heq => ?_⟩ fun _ _ _ h => h
    exact hl path (Event.ran.inj heq).2
  · rintro x a - hp - - ⟨⟩
    exact hQ x hp
  · exact fun x _ hx hp _ _ => ⟨keeps_failedStep hx l, failed_now l _, hF x hp⟩

theorem ensureSecureDir_safe (hP : DeviceStable digest calls process t P)
    (hown : ∀ x, P x → P (x.record (.ran t .ensuredDirectory) x.world)) :
    DeviceSafe digest calls process t (fun _ => P) (fun _ => Failed t) ensureSecureDir P :=
  (still_safe (F := fun _ => True) (l := .ensuredDirectory) hP (fun _ h => nomatch h) hown
    fun _ _ => trivial).conseq (fun _ _ h => h) (fun _ _ _ h => h) fun _ _ _ h => h.1

/-- A section under a lock: what the body ends with outlasts the release. -/
theorem withLock_safe {lock : DeviceLock} {body : DeviceProg α}
    (hP : DeviceStable digest calls process t P)
    (henter : ∀ x w, P x → P (x.record (.ran t (.locked lock)) w))
    (hQ : ∀ a, DeviceStable digest calls process t (Q a))
    (hleave : ∀ a x w, Q a x → Q a (x.record (.ran t (.unlocked lock)) w))
    (hbody : DeviceSafe digest calls process t (fun a x => Q a x ∧ Held t lock x)
      (fun _ x => Failed t x ∧ Held t lock x) body fun x => P x ∧ Held t lock x) :
    DeviceSafe digest calls process t Q (fun _ => Failed t) (withLock t lock body) P := by
  have hrelease {B : Snapshot DeviceWorld DeviceStep → Prop}
      (hB : DeviceStable digest calls process t B)
      (hleave : ∀ x w, B x → B (x.record (.ran t (.unlocked lock)) w)) :
      DeviceSafe digest calls process t (fun _ => B) (fun _ => Failed t) (releaseLock lock)
        fun x => B x ∧ Held t lock x := by
    refine Contract.Safe.action (hB.and (held_stable lock)) ?_
      (fun x _ _ hb _ _ _ => hleave x _ hb.1) (fun _ _ _ _ _ _ h => nomatch h)
      fun x _ hx _ _ _ => ⟨keeps_failedStep hx _, failed_now _ _⟩
    intro x hx hb _ _
    refine keeps_still hx ⟨rfl, rfl, fun _ _ h => nomatch h⟩ fun u other hf hu => ?_
    by_cases hsame : other = lock
    · subst hsame
      exact absurd (Option.some.inj (hb.2.symm.trans hu)) hf
    · exact (Function.update_of_ne hsame _ _).trans hu
  refine Contract.Safe.bind (R := fun _ x => P x ∧ Held t lock x) ?_ fun _ =>
    hbody.finallyDo (fun a => hrelease (hQ a) (hleave a)) fun _ =>
      hrelease (lasting_stable failed_lasting) fun x w h => failed_lasting x _ w h
  refine Contract.Safe.action hP ?_ ?_ (fun _ _ _ _ _ _ h => nomatch h)
    fun x _ hx _ _ _ => ⟨keeps_failedStep hx _, failed_now _ _⟩
  · intro x hx _ hfree _
    refine keeps_still hx ⟨rfl, rfl, fun _ _ h => nomatch h⟩ fun u other _ hu => ?_
    by_cases hsame : other = lock
    · subst hsame
      rw [hu] at hfree
      cases hfree
    · exact (Function.update_of_ne hsame _ _).trans hu
  · intro x _ _ hp _ _ _
    exact ⟨henter x _ hp, Function.update_self ..⟩

/-! ## Rows -/

/-- Under their lock the rows stay as they were read. -/
theorem heldRooms_stable (rooms : List JoinedRoom) :
    DeviceStable digest calls process t fun x =>
      Held t .joinedRooms x ∧ x.world.rooms = rooms :=
  fun _ _ _ hf _ _ hguar hx =>
    ⟨hguar.locks t _ hf hx.1, (hguar.rooms t hf hx.1).trans hx.2⟩

/-- Writing the rows the call leaves.  A row that goes is one the call deletes, and its
snapshot is owed from now on. -/
theorem writeJoinedRooms_safe {call : DeviceCall} (hcall : calls[t]? = some call)
    (rooms : List JoinedRoom) :
    DeviceSafe digest calls process t
      (fun _ x => RemovedNone t x ∧ Held t .joinedRooms x)
      (fun _ x => Failed t x ∧ Held t .joinedRooms x)
      (writeJoinedRooms (call.rowsAfter rooms))
      fun x => RemovedNone t x ∧ Held t .joinedRooms x ∧ x.world.rooms = rooms := by
  have hkeeps (x : Snapshot DeviceWorld DeviceStep)
      (hx : (deviceContract digest calls process).inv x) (hnone : RemovedNone t x)
      (hheld : Held t .joinedRooms x) (hrooms : x.world.rooms = rooms) :
      (deviceContract digest calls process).Keeps
        (.ran t (.wroteRooms (call.rowsAfter rooms))) x
        { x.world with rooms := call.rowsAfter rooms } := by
    have howned (path : String) (h : Owned digest calls x path) :
        Owned digest calls (x.record (.ran t (.wroteRooms (call.rowsAfter rooms)))
          { x.world with rooms := call.rowsAfter rooms }) path := by
      rcases h with ⟨key, hkey, hpath⟩ | ⟨u, howes⟩
      · rw [hrooms] at hkey
        rcases call.mem_rowsAfter hkey with hkept | hdeleted
        · exact .inl ⟨key, hkept, hpath⟩
        · refine .inr ⟨t, ⟨call, key, hcall, hdeleted, hpath⟩, ⟨_, List.mem_cons_self⟩, ?_⟩
          exact removedNone_record (e := .ran t (.wroteRooms (call.rowsAfter rooms)))
            (w := x.world) hnone (fun _ h => nomatch h) path
      · exact .inr ⟨u, howes.cons fun h => nomatch h⟩
    refine ⟨fun path hpath => howned path (hx path hpath), ⟨fun _ _ _ h => h, ?_, ?_, ?_,
      fun path _ h => howned path h, ?_⟩⟩
    · exact fun u hf hu => absurd (Option.some.inj (hheld.symm.trans hu)) hf
    · exact fun _ _ _ _ _ h => nomatch h
    · exact .inr ⟨t, call, hcall, rfl, by rw [hrooms]⟩
    · intro path hsome hgone
      rw [show x.world.snapshots path = none from hgone] at hsome
      cases hsome
  refine Contract.Safe.action (removedNone_stable.and (heldRooms_stable rooms))
    (fun x hx hp _ _ => hkeeps x hx hp.1 hp.2.1 hp.2.2) ?_
    (fun _ _ _ _ _ _ h => nomatch h) ?_
  · intro x _ _ hp _ _ _
    exact ⟨removedNone_record hp.1 fun _ h => (nomatch h), hp.2.1⟩
  · exact fun x _ hx hp _ _ => ⟨keeps_failedStep hx _, failed_now _ _, hp.2.1⟩

/-- An edit of the rows that writes what the call leaves. -/
theorem editRooms_safe {call : DeviceCall} (hcall : calls[t]? = some call)
    {edit : List JoinedRoom → α × Option (List JoinedRoom)}
    (hedit : ∀ rooms result next, edit rooms = (result, some next) →
      next = call.rowsAfter rooms) :
    DeviceSafe digest calls process t (fun _ => RemovedNone t) (fun _ => Failed t)
      (editRooms t edit) (RemovedNone t) := by
  refine (ensureSecureDir_safe removedNone_stable fun x hx =>
    removedNone_record hx fun _ h => nomatch h).bind fun _ => ?_
  refine withLock_safe removedNone_stable
    (fun x w hx => removedNone_record hx fun _ h => nomatch h) (fun _ => removedNone_stable)
    (fun _ x w hx => removedNone_record hx fun _ h => nomatch h) ?_
  refine Contract.Safe.bind
    (R := fun rooms x => RemovedNone t x ∧ Held t .joinedRooms x ∧ x.world.rooms = rooms)
    ?_ fun rooms => ?_
  · exact still_safe (removedNone_stable.and (held_stable _)) (fun _ h => nomatch h)
      (fun x hx => ⟨removedNone_record hx.1 fun _ h => (nomatch h), hx.2, rfl⟩)
      fun x hx => hx.2
  · cases h : edit rooms with
    | mk result next =>
        cases next with
        | none => exact .done fun x _ hx => ⟨hx.1, hx.2.1⟩
        | some next =>
            obtain rfl := hedit rooms result next h
            exact (writeJoinedRooms_safe hcall rooms).bind fun _ => .done fun x _ hx => hx

/-! ## Snapshots -/

/-- While a caller holds the lock of a snapshot that is owned, it stays owned. -/
theorem heldOwned_stable (path : String) :
    DeviceStable digest calls process t fun x =>
      Held t (.history path) x ∧ Owned digest calls x path :=
  fun _ _ _ hf _ _ hguar hx =>
    ⟨hguar.locks t _ hf hx.1, hguar.owned path (hguar.snapshots t path hf hx.1) hx.2⟩

theorem heldOwned_still {path : String} {l : DeviceStep}
    (hl : ∀ path, l ≠ .removedSnapshot path)
    (hx : Held t (.history path) x ∧ Owned digest calls x path) :
    Held t (.history path) (x.record (.ran t l) x.world) ∧
      Owned digest calls (x.record (.ran t l) x.world) path :=
  ⟨hx.1, hx.2.of_rooms rfl fun _ h => hl path (Event.ran.inj h).2⟩

/-- A room that is still tracked has a row, by which its snapshot is owned. -/
theorem isStillTracked_safe (key : JoinedRoomTarget) :
    DeviceSafe digest calls process t
      (fun tracked x => Held t (.history (joinedHistoryPath digest key)) x ∧
        (tracked = true → Owned digest calls x (joinedHistoryPath digest key)))
      (fun _ x => Failed t x ∧ Held t (.history (joinedHistoryPath digest key)) x)
      (isStillTracked key) (Held t (.history (joinedHistoryPath digest key))) := by
  refine Contract.Safe.bind (R := fun rooms x =>
    Held t (.history (joinedHistoryPath digest key)) x ∧
      ((findRoom key rooms).isSome → Owned digest calls x (joinedHistoryPath digest key)))
    ?_ fun rooms => .done fun x _ hx => ⟨hx.1, fun htracked => hx.2 ?_⟩
  · refine still_safe (held_stable _) (fun _ h => nomatch h) (fun x hx => ⟨hx, fun hrow => ?_⟩)
      fun x hx => hx
    exact .inl ⟨key, Table.isSome_find_iff.mp hrow, rfl⟩
  · cases hrow : findRoom key rooms with
    | none => simp [hrow] at htracked
    | some row => rfl

/-- A snapshot may be written while it is owned. -/
theorem keeps_wroteSnapshot (hx : (deviceContract digest calls process).inv x)
    {path : String} (howned : Owned digest calls x path) (snapshot : JoinedHistorySnapshot) :
    (deviceContract digest calls process).Keeps (.ran t (.wroteSnapshot path snapshot)) x
      (x.world.setSnapshot path (some snapshot)) := by
  have hnot (other : String) (u : Nat) :
      Event.ran t (DeviceStep.wroteSnapshot path snapshot) ≠ .ran u (.removedSnapshot other) :=
    fun h => nomatch h
  refine ⟨fun other hother => ?_, ⟨fun _ _ _ h => h, fun _ _ _ => rfl,
    fun _ other _ _ => hnot other, .inl rfl, fun other _ h => h.of_rooms rfl (hnot other),
    fun other hsome hnone => ?_⟩⟩
  · rw [Snapshot.record_world, DeviceWorld.setSnapshot_snapshots] at hother
    split at hother
    · rename_i hsame
      exact hsame ▸ howned.of_rooms rfl (hnot path)
    · exact (hx other hother).of_rooms rfl (hnot other)
  · rw [DeviceWorld.setSnapshot_snapshots] at hnone
    split at hnone
    · cases hnone
    · rw [hnone] at hsome
      cases hsome

/-- The holder of its lock may remove the snapshot of a room its call deletes. -/
theorem keeps_removedSnapshot (hx : (deviceContract digest calls process).inv x)
    {call : DeviceCall} (hcall : calls[t]? = some call) {key : JoinedRoomTarget}
    (hkey : key ∈ call.deleted) (hheld : Held t (.history (joinedHistoryPath digest key)) x) :
    (deviceContract digest calls process).Keeps
      (.ran t (.removedSnapshot (joinedHistoryPath digest key))) x
      (x.world.setSnapshot (joinedHistoryPath digest key) none) := by
  refine ⟨fun other hother => ?_, ⟨fun _ _ _ h => h, fun _ _ _ => rfl, ?_, .inl rfl,
    fun other he h => h.of_rooms rfl he, fun other hsome hnone => ?_⟩⟩
  · rw [Snapshot.record_world, DeviceWorld.setSnapshot_snapshots] at hother
    split at hother
    · cases hother
    · rename_i hne
      refine (hx other hother).of_rooms rfl fun _ h => hne ?_
      exact (DeviceStep.removedSnapshot.inj (Event.ran.inj h).2).symm
  · rintro u other hf hu v heq
    obtain ⟨rfl, hstep⟩ := Event.ran.inj heq
    obtain rfl := DeviceStep.removedSnapshot.inj hstep
    exact hf (Option.some.inj (hheld.symm.trans hu))
  · rw [DeviceWorld.setSnapshot_snapshots] at hnone
    split at hnone
    · rename_i hsame
      exact ⟨t, call, key, hcall, hkey, hsame.symm, by rw [hsame]⟩
    · rw [hnone] at hsome
      cases hsome

/-- Recording history under the guard: what is written is owned. -/
theorem recordJoinedHistory_safe (entry : HistoryEntry) :
    DeviceSafe digest calls process t (fun _ _ => True) (fun _ => Failed t)
      (recordJoinedHistory digest t entry (some (isStillTracked entry.key)))
      fun _ => True := by
  refine (ensureSecureDir_safe (.of_const True) fun _ _ => trivial).bind fun _ => ?_
  refine withLock_safe (.of_const True) (fun _ _ _ => trivial) (fun _ => .of_const True)
    (fun _ _ _ _ => trivial) ?_
  refine ((isStillTracked_safe entry.key).pre fun _ _ hx => hx.2).bind fun tracked => ?_
  have howned : DeviceStable digest calls process t fun x =>
      Held t (.history (joinedHistoryPath digest entry.key)) x ∧
        Owned digest calls x (joinedHistoryPath digest entry.key) := heldOwned_stable _
  cases tracked with
  | false => exact .done fun x _ hx => ⟨trivial, hx.1⟩
  | true =>
      refine Contract.Safe.bind (R := fun _ x =>
        Held t (.history (joinedHistoryPath digest entry.key)) x ∧
          Owned digest calls x (joinedHistoryPath digest entry.key)) ?_ fun found => ?_
      · refine Contract.Safe.catchErr (R := fun _ x =>
          Held t (.history (joinedHistoryPath digest entry.key)) x ∧
            Owned digest calls x (joinedHistoryPath digest entry.key)) ?_
          fun _ => .done fun _ _ hx => hx
        refine ((still_safe (l := .readSnapshot (joinedHistoryPath digest entry.key)) howned
          (fun _ h => nomatch h) (fun x hx => heldOwned_still
            (l := .readSnapshot (joinedHistoryPath digest entry.key)) (fun _ h => nomatch h) hx)
          fun x hx => ⟨hx.1, hx.2.of_rooms rfl fun _ h => nomatch h⟩).pre
          fun _ _ hx => ⟨hx.1, hx.2 rfl⟩).conseq (fun _ _ h => h) (fun _ _ _ h => h)
          fun _ _ _ h => h.2
      · refine Contract.Safe.bind
          (R := fun _ => Held t (.history (joinedHistoryPath digest entry.key))) ?_
          fun _ => .done fun x _ hx => ⟨trivial, hx⟩
        exact Contract.Safe.action howned
          (fun x hx hp _ _ => keeps_wroteSnapshot hx hp.2 _) (fun x _ _ hx _ _ _ => hx.1)
          (fun _ _ _ _ _ _ h => nomatch h)
          fun x _ hx hp _ _ => ⟨keeps_failedStep hx _, failed_now _ _, hp.1⟩

/-- Removing the snapshot of a room the call deletes. -/
theorem deleteJoinedHistory_safe {call : DeviceCall} (hcall : calls[t]? = some call)
    {key : JoinedRoomTarget} (hkey : key ∈ call.deleted) :
    DeviceSafe digest calls process t
      (fun _ => Removed t (joinedHistoryPath digest key)) (fun _ => Failed t)
      (deleteJoinedHistory digest t key) fun _ => True := by
  refine (ensureSecureDir_safe (.of_const True) fun _ _ => trivial).bind fun _ => ?_
  refine withLock_safe (.of_const True) (fun _ _ _ => trivial)
    (fun _ => lasting_stable (removed_lasting _))
    (fun _ x w h => removed_lasting _ x _ w h) ?_
  exact (Contract.Safe.action (held_stable _)
    (fun x hx hp _ _ => keeps_removedSnapshot hx hcall hkey hp)
    (fun x _ _ hp _ _ _ => ⟨List.mem_cons_self, hp⟩) (fun _ _ _ _ _ _ h => nomatch h)
    fun x _ hx hp _ _ => ⟨keeps_failedStep hx _, failed_now _ _, hp⟩).pre fun _ _ hx => hx.2

/-- What is known of the snapshots once they are cleared. -/
def Cleared (digest : List Char → String) (t : Nat) (keys : List JoinedRoomTarget)
    (failures : Nat) (x : Snapshot DeviceWorld DeviceStep) : Prop :=
  (failures = 0 → ∀ key ∈ keys, Removed t (joinedHistoryPath digest key) x) ∧
    (0 < failures → Failed t x)

theorem cleared_lasting (keys : List JoinedRoomTarget) (failures : Nat) :
    Contract.Lasting (Cleared digest t keys failures) :=
  fun x e w h => ⟨fun hzero key hkey => removed_lasting _ x e w (h.1 hzero key hkey),
    fun hpos => failed_lasting x e w (h.2 hpos)⟩

theorem clearSnapshots_safe {call : DeviceCall} (hcall : calls[t]? = some call)
    {keys : List JoinedRoomTarget} (hkeys : ∀ key ∈ keys, key ∈ call.deleted) :
    DeviceSafe digest calls process t (Cleared digest t keys) (fun _ => Failed t)
      (clearSnapshots digest t keys) fun _ => True := by
  induction keys with
  | nil =>
      exact .done fun _ _ _ => ⟨fun _ _ h => (nomatch h), fun h => absurd h (lt_irrefl 0)⟩
  | cons key keys ih =>
      have hfirst : DeviceSafe digest calls process t (Cleared digest t [key])
          (fun _ => Failed t)
          (((deleteJoinedHistory digest t key).bind fun _ => .ret 0).catchErr
            fun _ => .ret 1) fun _ => True := by
        refine Contract.Safe.catchErr (R := fun _ => Failed t)
          ((deleteJoinedHistory_safe hcall (hkeys key List.mem_cons_self)).bind fun _ =>
            .done fun x _ hx => ⟨fun _ other hother => ?_, fun h => absurd h (lt_irrefl 0)⟩)
          fun _ => .done fun x _ hx => ⟨fun h => absurd h Nat.one_ne_zero, fun _ => hx⟩
        rw [List.mem_singleton.mp hother]
        exact hx
      refine hfirst.bind fun failures => ?_
      have hlasting : Contract.Lasting (Cleared digest t [key] failures) :=
        cleared_lasting [key] failures
      have hrest := (ih fun other hother => hkeys other (List.mem_cons_of_mem _ hother)).frame
        hlasting
      refine ((hrest.pre fun _ _ hx => ⟨trivial, hx⟩).conseq (fun _ _ h => h)
        (fun _ _ _ h => h) fun _ _ _ h => h.1).bind fun rest => .done fun x _ hx => ?_
      obtain ⟨hrest, hfirst⟩ := hx
      refine ⟨fun hzero other hother => ?_, fun hpos => ?_⟩
      · have hzeros : failures = 0 ∧ rest = 0 := Nat.add_eq_zero_iff.mp hzero
        rcases List.mem_cons.mp hother with rfl | hother
        · exact hfirst.1 hzeros.1 _ (List.mem_singleton.mpr rfl)
        · exact hrest.1 hzeros.2 other hother
      · rcases Nat.eq_zero_or_pos failures with hzero | hpos'
        · exact hrest.2 (by omega)
        · exact hfirst.2 hpos'

/-! ## Calls -/

/-- A call that returns has removed the snapshots of the rooms it deletes; one that throws
had a step that failed. -/
theorem DeviceCall.prog_safe {call : DeviceCall} (hcall : calls[t]? = some call) :
    DeviceSafe digest calls process t
      (fun _ x => ∀ key ∈ call.deleted, Removed t (joinedHistoryPath digest key) x)
      (fun _ => Failed t) (call.prog digest t) (RemovedNone t) := by
  have hrows {β : Type} {edit : List JoinedRoom → β × Option (List JoinedRoom)}
      (hedit : ∀ rooms result next, edit rooms = (result, some next) →
        next = call.rowsAfter rooms) (hdeleted : call.deleted = []) :
      DeviceSafe digest calls process t
        (fun _ x => ∀ key ∈ call.deleted, Removed t (joinedHistoryPath digest key) x)
        (fun _ => Failed t) (editRooms t edit) (RemovedNone t) :=
    (editRooms_safe hcall hedit).conseq (fun _ _ h => h)
      (fun _ _ _ _ key hkey => by rw [hdeleted] at hkey; cases hkey) fun _ _ _ h => h
  cases call with
  | recordJoinedRoom entry =>
      exact hrows (fun _ _ _ h => (Option.some.inj (Prod.mk.inj h).2).symm) rfl
  | refreshJoinedRoomMetadata entry =>
      exact hrows (fun _ _ _ h => (Option.some.inj (Prod.mk.inj h).2).symm) rfl
  | setJoinedRoomArchived target archived =>
      refine (hrows (fun rooms result next h => ?_) rfl).bind fun _ => .done fun _ _ hx => hx
      split at h
      · exact (Option.some.inj (Prod.mk.inj h).2).symm
      · cases h
  | setJoinedRoomsArchived targets archived =>
      refine Contract.Safe.bind (R := fun _ x => ∀ key ∈ ([] : List JoinedRoomTarget),
        Removed t (joinedHistoryPath digest key) x) ?_ fun _ => .done fun _ _ hx => hx
      unfold Storage.setJoinedRoomsArchived
      split
      · exact ((ensureSecureDir_safe removedNone_stable fun x hx =>
          removedNone_record hx fun _ h => (by cases h))).bind fun _ =>
            .done fun _ _ _ key hkey => (by cases hkey)
      · refine hrows (fun rooms result next h => ?_) rfl
        have hnext := (Prod.mk.inj h).2
        split at hnext
        · exact (Option.some.inj hnext).symm
        · cases hnext
  | deleteJoinedRoom target =>
      refine Contract.Safe.bind (R := fun _ x =>
        Removed t (joinedHistoryPath digest target) x) ?_ fun _ =>
          .done fun x _ hx key hkey => by rw [List.mem_singleton.mp hkey]; exact hx
      refine (editRooms_safe hcall fun rooms result next h => ?_).bind fun _ =>
        ((deleteJoinedHistory_safe hcall (List.mem_singleton.mpr rfl)).pre
          fun _ _ _ => trivial).bind fun _ => .done fun _ _ hx => hx
      simp only [deleteEdit] at h
      split at h
      · cases h
      · exact (Option.some.inj (Prod.mk.inj h).2).symm
  | deleteJoinedRooms targets =>
      refine Contract.Safe.bind (R := fun _ x => ∀ key ∈ targets,
        Removed t (joinedHistoryPath digest key) x) ?_ fun _ => .done fun _ _ hx => hx
      unfold Storage.deleteJoinedRooms
      split
      · rename_i hempty
        refine ((ensureSecureDir_safe removedNone_stable fun x hx =>
          removedNone_record hx fun _ h => (by cases h))).bind fun _ =>
            .done fun _ _ _ key hkey => ?_
        rw [← mem_keys_dedupeTargets, hempty] at hkey
        cases hkey
      · refine (editRooms_safe hcall fun rooms result next h => ?_).bind fun removed => ?_
        · have hnext := (Prod.mk.inj h).2
          split at hnext
          · exact (Option.some.inj hnext).symm
          · cases hnext
        · refine ((clearSnapshots_safe hcall fun key hkey => (mem_values_dedupeTargets targets key).mp hkey).pre
            fun _ _ _ => trivial).bind fun failures => ?_
          split
          · rename_i hpos
            exact fun x _ hx => hx.2 hpos
          · rename_i hzero
            exact .done fun x _ hx key hkey =>
              hx.1 (Nat.eq_zero_of_not_pos hzero) key ((mem_values_dedupeTargets targets key).mpr hkey)
  | recordJoinedHistory entry =>
      exact (((recordJoinedHistory_safe entry).pre fun _ _ _ => trivial).bind fun _ =>
        .done fun _ _ _ key hkey => (by cases hkey))

/-- Crashes keep the discipline: they only free the locks of the crashed process. -/
theorem deviceContract_crashSafe :
    (deviceContract digest calls process).CrashSafe (deviceSystem process) := by
  rintro p damage ⟨⟩ x hx -
  refine keeps_still hx ⟨rfl, rfl, fun _ _ h => nomatch h⟩ fun u lock hf hu => ?_
  have hp : (process u != p) = true := bne_iff_ne.mpr hf
  simp [hu, hp]

/-- What holds once a call has returned. -/
def CallReturned (digest : List Char → String) (calls : List DeviceCall) (t : Nat)
    (x : Snapshot DeviceWorld DeviceStep) : Prop :=
  ∀ call key, calls[t]? = some call → key ∈ call.deleted →
    Removed t (joinedHistoryPath digest key) x

/-- On a device whose snapshots all have rows, every run keeps the discipline, and every call
ends as is said of it. -/
theorem device_holdsTo {home : DeviceWorld}
    (hhome : ∀ path, (home.snapshots path).isSome → HasRow digest path home.rooms)
    {c : Config DeviceWorld DeviceStep Failure Unit}
    (h : (deviceSystem process).Reachable (device digest home calls) c) :
    (deviceContract digest calls process).HoldsTo (deviceSystem process)
      (fun t _ => CallReturned digest calls t) (fun t _ => Failed t) c := by
  have hinv : (deviceContract digest calls process).inv (device digest home calls).snap :=
    fun path hpath => .inl (hhome path hpath)
  refine Contract.ends_sound ⟨hinv, fun t p hp => ?_⟩ deviceContract_crashSafe
    (fun t _ => lasting_stable fun x e w hx call key hcall hkey =>
      removed_lasting _ x e w (hx call key hcall hkey))
    (fun t _ => lasting_stable failed_lasting) h
  simp only [System.thread, device, List.getElem?_mapIdx] at hp
  cases hcall : calls[t]? with
  | none => simp [hcall] at hp
  | some call =>
      obtain rfl : call.prog digest t = p := by simpa [hcall] using hp
      refine .of_safe ((call.prog_safe hcall).conseq (fun _ _ hx => hx) ?_
        fun _ _ _ hx => hx) hinv fun path hremoved => (by cases hremoved)
      intro _ x _ hx other key hother hkey
      obtain rfl := Option.some.inj (hcall.symm.trans hother)
      exact hx key hkey

end Rules

end AgentGather.Storage
