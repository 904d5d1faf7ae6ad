import AgentGather.Browser.Links
import AgentGather.Browser.RestoredRows

/-!
# Who speaks in a restored row

Two backups that restore the same messages: a row that names an author has author and text from
the host's record, whatever the backups hold.  Its time stays the one of the backup.
-/

namespace AgentGather.Browser

open AgentGather.Library AgentGather.Library.Dom

/-! ## Two backups -/

/-- The row is what the record determines, its time included. -/
def Visit.Determines (visit : Visit) (record : Json) (row : RestoredRow) : Prop :=
  visit.SpeaksFor record row ∧
    ∃ ts, record.field? "ts" = some (.str ts) ∧ visit.shownTime ts = some row.time

/-- What the timelines of two backups of one room show: rows that name an author are the host's,
and the same in both; the other rows have the label; and the senders of neither backup count. -/
structure HostsOwn (visit : Visit) (stored stored' : Option (List Char))
    (timeline timeline' : Timeline) : Prop where
  same : timeline.rows.filter (·.authorConfirmed) = timeline'.rows.filter (·.authorConfirmed)
  determined : ∀ row ∈ timeline.rows ++ timeline'.rows, row.authorConfirmed = true →
    ∃ record, confirmingRecord (visit.hostRecords stored) row.id = some record ∧
      visit.Determines record row
  labelled : ∀ row ∈ timeline.rows ++ timeline'.rows, row.authorConfirmed = false →
    row.author = restoredSenderLabel
  senderless : ∀ backup ∈ [(stored, timeline), (stored', timeline')],
    ∀ (other : Option (List Char)) (shown : Timeline),
      (readBackupForSeed backup.1).map RestoredMessage.anonymous =
        (readBackupForSeed other).map RestoredMessage.anonymous →
      visit.Restores other shown → shown.tree = backup.2.tree

/-- Where the host's record confirms a message, the backups have the time of the record. -/
def Visit.TimesAgree (visit : Visit) (stored stored' : Option (List Char)) : Prop :=
  ∀ message ∈ visit.restored stored ++ visit.restored stored', ∀ record,
    confirmingRecord (visit.hostRecords stored) message.id = some record →
    record.field? "ts" = some (.str message.ts)

section Backups

variable {visit : Visit} {stored stored' : Option (List Char)} {timeline timeline' : Timeline}

theorem Visit.restoredIds_eq
    (h : ∀ id, id ∈ visit.restoredIds stored ↔ id ∈ visit.restoredIds stored') :
    visit.restoredIds stored = visit.restoredIds stored' :=
  (visit.restoredIds_ascending stored).eq_of_mem_iff (visit.restoredIds_ascending stored') h

/-- The senders that a backup holds do not reach the tree. -/
theorem Visit.Restores.tree_eq {other : Option (List Char)} {shown : Timeline}
    (h : visit.Restores stored timeline)
    (hsame : (readBackupForSeed stored).map RestoredMessage.anonymous =
      (readBackupForSeed other).map RestoredMessage.anonymous)
    (hother : visit.Restores other shown) : shown.tree = timeline.tree := by
  obtain ⟨rounds, hrun⟩ := hother
  rw [← restoreBackup_anonymous hsame] at hrun
  have hshown : visit.Restores stored shown := ⟨rounds, hrun⟩
  rw [hshown.unique h]

theorem ShownRow.confirmed_iff {records : List Json} {message : RestoredMessage}
    {row : RestoredRow} (h : ShownRow visit records message row) :
    row.authorConfirmed = true ↔ ∃ record, confirmingRecord records row.id = some record := by
  rw [h.id]
  cases h with
  | own hnone hrow => simp [hnone, hrow.unconfirmed]
  | confirmed hrecord _ _ _ hconfirmed => simp [hrecord, hconfirmed]

/-- A row that names an author has them and its text from the record, and its time from the
backup. -/
theorem ShownRow.of_confirmed {records : List Json} {message : RestoredMessage}
    {row : RestoredRow} (h : ShownRow visit records message row)
    (hconfirmed : row.authorConfirmed = true) :
    ∃ record, confirmingRecord records message.id = some record ∧ visit.SpeaksFor record row := by
  cases h with
  | own _ hrow =>
      rw [hrow.unconfirmed] at hconfirmed
      cases hconfirmed
  | confirmed hrecord _ _ hrow _ => exact ⟨_, hrecord, hrow⟩

theorem ShownRow.labelled {records : List Json} {message : RestoredMessage}
    {row : RestoredRow} (h : ShownRow visit records message row)
    (hunconfirmed : row.authorConfirmed = false) : row.author = restoredSenderLabel := by
  cases h with
  | own _ hrow => exact hrow.author
  | confirmed _ _ _ _ hconfirmed =>
      rw [hunconfirmed] at hconfirmed
      cases hconfirmed

/-- Two rows of one number that the record confirms differ in their times only. -/
theorem ShownRow.eq_of_time {records : List Json} {message message' : RestoredMessage}
    {row row' : RestoredRow} (h : ShownRow visit records message row)
    (h' : ShownRow visit records message' row') (hid : message.id = message'.id)
    (hconfirmed : row.authorConfirmed = true) (htime : row.time = row'.time) : row = row' := by
  obtain ⟨record, hrecord, hrow⟩ := h.of_confirmed hconfirmed
  have hids : row.id = row'.id := by rw [h.id, h'.id, hid]
  have hconfirmed' : row'.authorConfirmed = true := by
    rw [h'.confirmed_iff, ← hids, h.id]
    exact ⟨record, hrecord⟩
  obtain ⟨record', hrecord', hrow'⟩ := h'.of_confirmed hconfirmed'
  rw [← hid, hrecord] at hrecord'
  cases hrecord'
  have hauthor : row.author = row'.author := by rw [hrow.author, hrow'.author]
  have hbody : row.body = row'.body := hrow.body.unique hrow'.body
  cases row
  cases row'
  simp_all

theorem ShownRow.determined_iff {records : List Json} {message : RestoredMessage}
    {row : RestoredRow} (h : ShownRow visit records message row) :
    (row.authorConfirmed = true → ∃ record,
        confirmingRecord records row.id = some record ∧ visit.Determines record row) ↔
      ∀ record, confirmingRecord records message.id = some record →
        record.field? "ts" = some (.str message.ts) := by
  rw [h.confirmed_iff, h.id]
  constructor
  · intro hdetermined record hrecord
    obtain ⟨record', hrecord', -, ts, hts, htime⟩ := hdetermined ⟨record, hrecord⟩
    rw [hrecord] at hrecord'
    cases hrecord'
    have hstored := Visit.dateTime_of_shownTime h.time
    rw [hts, ← Visit.dateTime_of_shownTime htime, hstored]
  · rintro hts ⟨record, hrecord⟩
    have hconfirmed := h.confirmed_iff.mpr ⟨record, h.id ▸ hrecord⟩
    obtain ⟨record', hrecord', hrow⟩ := h.of_confirmed hconfirmed
    exact ⟨record', hrecord', hrow, message.ts, hts record' hrecord', h.time⟩

theorem rows_determined_iff {records : List Json} {messages : List RestoredMessage}
    {rows : List RestoredRow} (h : List.Forall₂ (ShownRow visit records) messages rows) :
    (∀ row ∈ rows, row.authorConfirmed = true → ∃ record,
        confirmingRecord records row.id = some record ∧ visit.Determines record row) ↔
      ∀ message ∈ messages, ∀ record, confirmingRecord records message.id = some record →
        record.field? "ts" = some (.str message.ts) := by
  induction h with
  | nil => simp only [List.not_mem_nil, false_implies, implies_true]
  | cons hrow _ ih => rw [List.forall_mem_cons, List.forall_mem_cons, ih, hrow.determined_iff]

/-- Where the times agree, the rows that name an author are the same. -/
theorem filter_confirmed_eq {records : List Json} {messages messages' : List RestoredMessage}
    {rows rows' : List RestoredRow} (h : List.Forall₂ (ShownRow visit records) messages rows)
    (h' : List.Forall₂ (ShownRow visit records) messages' rows')
    (hids : messages.map (·.id) = messages'.map (·.id))
    (hts : ∀ message ∈ messages ++ messages', ∀ record,
      confirmingRecord records message.id = some record →
      record.field? "ts" = some (.str message.ts)) :
    rows.filter (·.authorConfirmed) = rows'.filter (·.authorConfirmed) := by
  induction h generalizing messages' rows' with
  | nil =>
      cases messages' with
      | nil =>
          cases h'
          rfl
      | cons message messages' => cases hids
  | @cons message row messages rows hrow _ ih =>
      cases h' with
      | nil => cases hids
      | @cons message' row' messages' rows' hrow' hrows' =>
          obtain ⟨hid, hids⟩ := List.cons.inj hids
          have hid : message.id = message'.id := hid
          have hlater := ih hrows' hids fun message hmessage => by
            apply hts
            rw [List.mem_append] at hmessage ⊢
            exact hmessage.imp (List.mem_cons_of_mem _) (List.mem_cons_of_mem _)
          cases hconfirmed : row.authorConfirmed with
          | true =>
              obtain ⟨record, hrecord, -⟩ := hrow.of_confirmed hconfirmed
              have hfirst := hts message (List.mem_append_left _ List.mem_cons_self) record hrecord
              have hsecond := hts message' (List.mem_append_right _ List.mem_cons_self) record
                (hid ▸ hrecord)
              have hsame : message.ts = message'.ts :=
                Json.str.inj (Option.some.inj (hfirst.symm.trans hsecond))
              have htime : row.time = row'.time := by
                apply Option.some.inj
                rw [← hrow.time, ← hrow'.time, hsame]
              rw [← hrow.eq_of_time hrow' hid hconfirmed htime, List.filter_cons_of_pos hconfirmed,
                List.filter_cons_of_pos hconfirmed, hlater]
          | false =>
              have hconfirmed' : ¬ row'.authorConfirmed = true := by
                rw [hrow'.confirmed_iff, hrow'.id, ← hid, ← hrow.id, ← hrow.confirmed_iff,
                  hconfirmed]
                exact Bool.false_ne_true
              rw [List.filter_cons_of_neg (by rw [hconfirmed]; exact Bool.false_ne_true),
                List.filter_cons_of_neg hconfirmed', hlater]

theorem rows_labelled {records : List Json} {messages : List RestoredMessage}
    {rows : List RestoredRow} (h : List.Forall₂ (ShownRow visit records) messages rows) :
    ∀ row ∈ rows, row.authorConfirmed = false → row.author = restoredSenderLabel := by
  induction h with
  | nil => exact fun _ h => nomatch h
  | cons hrow _ ih => exact List.forall_mem_cons.mpr ⟨hrow.labelled, ih⟩

theorem rows_of_same_ids
    (hids : ∀ id, id ∈ visit.restoredIds stored ↔ id ∈ visit.restoredIds stored')
    (h' : visit.Restores stored' timeline') :
    List.Forall₂ (ShownRow visit (visit.hostRecords stored)) (visit.restored stored')
      timeline'.rows := by
  rw [Visit.hostRecords, Visit.restoredIds_eq hids]
  exact h'.rows

/-- Rows that are the host's have the host's times. -/
theorem determined_iff_timesAgree
    (hids : ∀ id, id ∈ visit.restoredIds stored ↔ id ∈ visit.restoredIds stored')
    (h : visit.Restores stored timeline) (h' : visit.Restores stored' timeline') :
    (∀ row ∈ timeline.rows ++ timeline'.rows, row.authorConfirmed = true → ∃ record,
        confirmingRecord (visit.hostRecords stored) row.id = some record ∧
          visit.Determines record row) ↔
      visit.TimesAgree stored stored' := by
  rw [Visit.TimesAgree, List.forall_mem_append, List.forall_mem_append,
    rows_determined_iff h.rows, rows_determined_iff (rows_of_same_ids hids h')]

/-- For two backups that restore the same messages the rows that name an author are the host's,
and the same, exactly if the times of these messages are those of the host's records; a row's
time is not replaced. -/
theorem hostsOwn_iff
    (hids : ∀ id, id ∈ visit.restoredIds stored ↔ id ∈ visit.restoredIds stored')
    (h : visit.Restores stored timeline) (h' : visit.Restores stored' timeline') :
    HostsOwn visit stored stored' timeline timeline' ↔ visit.TimesAgree stored stored' := by
  rw [← determined_iff_timesAgree hids h h']
  constructor
  · exact HostsOwn.determined
  · intro hdetermined
    have hrows' := rows_of_same_ids hids h'
    refine ⟨?_, hdetermined, ?_, ?_⟩
    · apply filter_confirmed_eq h.rows hrows' (Visit.restoredIds_eq hids)
      exact (determined_iff_timesAgree hids h h').mp hdetermined
    · exact List.forall_mem_append.mpr ⟨rows_labelled h.rows, rows_labelled hrows'⟩
    · intro backup hbackup other shown hsame hother
      rcases List.mem_cons.mp hbackup with rfl | hbackup
      · exact h.tree_eq hsame hother
      · rw [List.mem_singleton.mp hbackup] at hsame ⊢
        exact h'.tree_eq hsame hother

end Backups

/-! ## A backup with another time -/

def sentAt : String := "2026-06-01T09:00:00.000Z"

def messageAt (ts : String) : Json :=
  .obj [("id", .num 1), ("from", .str "ann"), ("ts", .str ts), ("type", .str "message"),
    ("text", .str "***")]

/-- A browser that shows the hours and the minutes of UTC. -/
def visitOfAnn : Visit where
  page := roomPage
  formatTime ts := some (.ofList ((ts.toList.drop 11).take 5))
  seedParticipants := ["ann".toList]
  participants := ["ann".toList]
  participantLabels := .empty
  messages _ _ := some (.obj [("messages", .arr [messageAt sentAt])])

def backupAt (ts : String) : Json :=
  .obj [("messages", .arr [messageAt ts])]

def timelineAt (ts : String) : Timeline where
  divider := some (1, 1)
  rows := [⟨1, "ann", ⟨ts, .ofList ((ts.toList.drop 11).take 5)⟩, [.element "hr" [] []], true⟩]
  seededIds := [1]

theorem readBackupForSeed_backupAt {ts : String} (h : ts ≠ "") :
    readBackupForSeed (some (backupAt ts).print) = [⟨1, "ann", ts, "***"⟩] := by
  have hparse : Json.parse (backupAt ts).print = some (backupAt ts) :=
    Json.parse_print _
      (by simp [backupAt, messageAt, Json.Valid, Json.ValidItems, Json.ValidFields])
  have htext : redactForBackup (some (.str "***")) = "***" := by decide +kernel
  have hentry : readEntry (messageAt ts) = some ⟨1, "ann", ts, "***"⟩ := by
    simp [readEntry, messageAt, Json.field?, isRestorableStoredType, h, htext]
  have hmessages : (backupAt ts).field? "messages" = some (.arr [messageAt ts]) := rfl
  rw [readBackupForSeed, Option.bind_some, hparse]
  simp only [hmessages, List.filterMap_cons, List.filterMap_nil, hentry]
  exact List.mergeSort_singleton _

theorem restoredIds_backupAt {ts ts' : String} (h : ts ≠ "") (h' : ts' ≠ "") (id : Int) :
    id ∈ visitOfAnn.restoredIds (some (backupAt ts).print) ↔
      id ∈ visitOfAnn.restoredIds (some (backupAt ts').print) := by
  have hids {ts : String} (h : ts ≠ "") :
      visitOfAnn.restoredIds (some (backupAt ts).print) = [1] := by
    rw [Visit.restoredIds, Visit.restored, readBackupForSeed_backupAt h]
    rfl
  rw [hids h, hids h']

theorem render_rule (mentions : Mentions) :
    renderSafeMarkdown 1 roomPage "***".toList ⟨mentions, false⟩ =
      some [.element "hr" [] []] := by
  have hlines : linesOf "***".toList = ["***".toList] := by decide +kernel
  have hblank : isBlank "***".toList = false := by decide +kernel
  have hfence : isFence "***".toList = false := by decide +kernel
  have hheading : headingPattern.exec "***".toList = none := by decide +kernel
  have hrule : rulePattern.test "***".toList = true := by decide +kernel
  rw [renderSafeMarkdown, hlines]
  simp only [Bool.false_eq_true, if_false, renderLines, nextBlock, hblank, hfence, hheading, hrule,
    if_true, Option.map_some, List.append_nil]

theorem restores_backupAt {ts : String} (h : ts ≠ "") :
    visitOfAnn.Restores (some (backupAt ts).print) (timelineAt ts) := by
  have hread := readBackupForSeed_backupAt h
  have hseed : seedEntryFromBackup 1 visitOfAnn (some (backupAt ts).print) =
      some ⟨some (1, 1), [⟨1, restoredSenderLabel, ⟨ts, .ofList ((ts.toList.drop 11).take 5)⟩,
        [.element "hr" [] []], false⟩], [1]⟩ := by
    rw [seedEntryFromBackup, hread]
    simp only [List.map_cons, List.map_nil, List.head?_cons, List.getLast?_singleton,
      renderMessages, renderMessage, visitOfAnn, render_rule, Ending.bind]
  have hrecords : visitOfAnn.recordsFor [1] = some [messageAt sentAt] := rfl
  have htext : redactForBackup (some (.str (Storage.textOf (some (.str "***"))))) = "***" := by
    decide +kernel
  have hrecord : confirmingRecord [messageAt sentAt] 1 = some (messageAt sentAt) := rfl
  have hfrom : visitOfAnn.labelOf (confirmedRestoredSender (some (messageAt sentAt))) = "ann" :=
    rfl
  refine ⟨1, ?_⟩
  rw [restoreBackup, hseed, Option.bind_some, confirmSeededAuthors, hrecords]
  simp only [confirmRows, List.foldlM_cons, List.foldlM_nil, updateRow, if_true, confirmRow_eq,
    hrecord, hfrom]
  have hfield : Json.field? "text" (messageAt sentAt) = some (.str "***") := rfl
  rw [hfield, htext, show visitOfAnn.page = roomPage from rfl, render_rule]
  rfl

/-- The times of one of the two backups are not those of the host. -/
theorem hostsOwn_forged_time :
    ¬ ∀ (visit : Visit) (stored stored' : Option (List Char)) (timeline timeline' : Timeline),
      (∀ id, id ∈ visit.restoredIds stored ↔ id ∈ visit.restoredIds stored') →
      visit.Restores stored timeline → visit.Restores stored' timeline' →
      HostsOwn visit stored stored' timeline timeline' := by
  intro h
  have hrow := (h visitOfAnn (some (backupAt sentAt).print)
    (some (backupAt "2026-06-01T17:00:00.000Z").print) _ _ (restoredIds_backupAt (by decide)
      (by decide)) (restores_backupAt (by decide)) (restores_backupAt (by decide))).same
  have htime := congrArg (fun rows => rows.map fun row => row.time.text) hrow
  revert htime
  decide +kernel

theorem hostsOwn_iff_sameTime :
    HostsOwn visitOfAnn (some (backupAt sentAt).print) (some (backupAt sentAt).print)
        (timelineAt sentAt) (timelineAt sentAt) ↔
      visitOfAnn.TimesAgree (some (backupAt sentAt).print) (some (backupAt sentAt).print) :=
  hostsOwn_iff (fun _ => Iff.rfl) (restores_backupAt (by decide)) (restores_backupAt (by decide))

end AgentGather.Browser
