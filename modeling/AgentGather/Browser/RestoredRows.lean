import AgentGather.Browser.Restored

/-!
# The rows of a restored timeline

What each row shows after the rows are restored and confirmed: its own copy under the label, or
the author and the text of the host's record.
-/

namespace AgentGather.Browser

open AgentGather.Library AgentGather.Library.Dom

/-! ## The seeded rows -/

/-- The `time` element for a date, if it is one. -/
def Visit.shownTime (visit : Visit) (ts : String) : Option ShownTime :=
  (visit.formatTime ts).map fun clock => ⟨ts, clock⟩

theorem Visit.dateTime_of_shownTime {visit : Visit} {ts : String} {time : ShownTime}
    (h : visit.shownTime ts = some time) : time.dateTime = ts := by
  obtain ⟨clock, -, rfl⟩ := Option.map_eq_some_iff.mp h
  rfl

/-- The messages that the backup restores: none, if the date of one of them is not one. -/
def Visit.restored (visit : Visit) (stored : Option (List Char)) : List RestoredMessage :=
  if (readBackupForSeed stored).all fun message => (visit.formatTime message.ts).isSome then
    readBackupForSeed stored
  else []

def Visit.restoredIds (visit : Visit) (stored : Option (List Char)) : List Int :=
  (visit.restored stored).map (·.id)

theorem Visit.restoredIds_ascending (visit : Visit) (stored : Option (List Char)) :
    (visit.restoredIds stored).Pairwise (· < ·) := by
  unfold Visit.restoredIds Visit.restored
  split
  · exact readBackupForSeed_ascending stored
  · exact List.Pairwise.nil

/-- The row as it is restored. -/
structure SeededRow (visit : Visit) (message : RestoredMessage) (row : RestoredRow) : Prop where
  id : row.id = message.id
  author : row.author = restoredSenderLabel
  time : visit.shownTime message.ts = some row.time
  body : Renders visit.page message.text.toList ⟨some visit.seedParticipants, false⟩ row.body
  unconfirmed : row.authorConfirmed = false

section Spec

variable {rounds : Nat} {visit : Visit}

theorem renderMessage_done {message : RestoredMessage} {row : RestoredRow}
    (h : renderMessage rounds visit message = .done row) : SeededRow visit message row := by
  unfold renderMessage at h
  split at h
  · cases h
  · rename_i clock hclock
    split at h
    · cases h
    · rename_i body hbody
      cases h
      exact ⟨rfl, rfl, Option.map_eq_some_iff.mpr ⟨clock, hclock, rfl⟩, ⟨rounds, hbody⟩, rfl⟩

theorem renderMessages_cons (message : RestoredMessage) (messages : List RestoredMessage) :
    renderMessages rounds visit (message :: messages) =
      (renderMessage rounds visit message).bind fun row =>
        (renderMessages rounds visit messages).bind fun rows => .done (row :: rows) := rfl

theorem renderMessages_done {messages : List RestoredMessage} {rows : List RestoredRow}
    (h : renderMessages rounds visit messages = .done rows) :
    List.Forall₂ (SeededRow visit) messages rows := by
  induction messages generalizing rows with
  | nil =>
      cases h
      exact .nil
  | cons message messages ih =>
      rw [renderMessages_cons] at h
      cases hrow : renderMessage rounds visit message with
      | done row =>
          rw [hrow] at h
          cases hrows : renderMessages rounds visit messages with
          | done later =>
              rw [hrows] at h
              cases h
              exact .cons (renderMessage_done hrow) (ih hrows)
          | threw =>
              rw [hrows] at h
              cases h
          | unfinished =>
              rw [hrows] at h
              cases h
      | threw =>
          rw [hrow] at h
          cases h
      | unfinished =>
          rw [hrow] at h
          cases h

/-- Only a date that is not one makes the page throw. -/
theorem renderMessages_threw {messages : List RestoredMessage}
    (h : renderMessages rounds visit messages = .threw) :
    (messages.all fun message => (visit.formatTime message.ts).isSome) = false := by
  induction messages with
  | nil => cases h
  | cons message messages ih =>
      rw [renderMessages_cons] at h
      rw [List.all_cons, Bool.and_eq_false_iff]
      cases hclock : visit.formatTime message.ts with
      | none => exact .inl rfl
      | some clock =>
          right
          apply ih
          cases hrow : renderMessage rounds visit message with
          | done row =>
              rw [hrow] at h
              cases hrows : renderMessages rounds visit messages with
              | done later =>
                  rw [hrows] at h
                  cases h
              | threw => rfl
              | unfinished =>
                  rw [hrows] at h
                  cases h
          | threw =>
              rw [renderMessage, hclock] at hrow
              simp only at hrow
              split at hrow <;> cases hrow
          | unfinished =>
              rw [hrow] at h
              cases h

theorem seeded_ids {messages : List RestoredMessage} {rows : List RestoredRow}
    (h : List.Forall₂ (SeededRow visit) messages rows) :
    rows.map (·.id) = messages.map (·.id) := by
  induction h with
  | nil => rfl
  | cons hrow _ ih => rw [List.map_cons, List.map_cons, hrow.id, ih]

theorem seeded_dates {messages : List RestoredMessage} {rows : List RestoredRow}
    (h : List.Forall₂ (SeededRow visit) messages rows) :
    (messages.all fun message => (visit.formatTime message.ts).isSome) = true := by
  induction h with
  | nil => rfl
  | cons hrow _ ih =>
      obtain ⟨clock, hclock, -⟩ := Option.map_eq_some_iff.mp hrow.time
      rw [List.all_cons, ih, hclock]
      rfl

theorem seedEntryFromBackup_spec {stored : Option (List Char)} {timeline : Timeline}
    (h : seedEntryFromBackup rounds visit stored = some timeline) :
    timeline.seededIds = visit.restoredIds stored ∧
      List.Forall₂ (SeededRow visit) (visit.restored stored) timeline.rows := by
  have hnothing (hempty : visit.restored stored = []) (htimeline : timeline = .empty) :
      timeline.seededIds = visit.restoredIds stored ∧
        List.Forall₂ (SeededRow visit) (visit.restored stored) timeline.rows := by
    rw [Visit.restoredIds, hempty, htimeline]
    exact ⟨rfl, .nil⟩
  unfold seedEntryFromBackup at h
  simp only at h
  split at h
  · split at h
    · rename_i rows hrows
      cases h
      have hseeded := renderMessages_done hrows
      rw [Visit.restoredIds, Visit.restored, if_pos (seeded_dates hseeded)]
      exact ⟨rfl, hseeded⟩
    · rename_i hthrew
      cases h
      apply hnothing
      · rw [Visit.restored, renderMessages_threw hthrew, if_neg Bool.false_ne_true]
      · rfl
    · cases h
  · rename_i hempty
    cases h
    apply hnothing
    · cases hrestored : readBackupForSeed stored with
      | nil =>
          rw [Visit.restored, hrestored]
          rfl
      | cons message messages =>
          rw [hrestored] at hempty
          have hlast := List.getLast?_eq_some_getLast
            (List.cons_ne_nil message.id (messages.map (·.id)))
          exact absurd hlast (hempty _ _ rfl)
    · rfl

/-! ## The confirmed rows -/

/-- The record that confirms the row of a number. -/
def confirmingRecord (records : List Json) (id : Int) : Option Json :=
  (usableRecord records id).filter fun record =>
    confirmedRestoredSender (some record) != restoredSenderLabel

/-- The row shows the author and the text of the record. -/
structure Visit.SpeaksFor (visit : Visit) (record : Json) (row : RestoredRow) : Prop where
  author : row.author = visit.labelOf (confirmedRestoredSender (some record))
  body : Renders visit.page
    (redactForBackup (some (.str (Storage.textOf (record.field? "text"))))).toList
    ⟨some visit.participants, false⟩ row.body

/-- The row of a message after the confirmation. -/
inductive ShownRow (visit : Visit) (records : List Json) (message : RestoredMessage) :
    RestoredRow → Prop where
  | own {row : RestoredRow} (hnone : confirmingRecord records message.id = none)
      (hrow : SeededRow visit message row) : ShownRow visit records message row
  | confirmed {record : Json} {row : RestoredRow}
      (hrecord : confirmingRecord records message.id = some record) (hid : row.id = message.id)
      (htime : visit.shownTime message.ts = some row.time) (hrow : visit.SpeaksFor record row)
      (hconfirmed : row.authorConfirmed = true) : ShownRow visit records message row

theorem ShownRow.time {records : List Json} {message : RestoredMessage} {row : RestoredRow}
    (h : ShownRow visit records message row) : visit.shownTime message.ts = some row.time := by
  cases h with
  | own _ hrow => exact hrow.time
  | confirmed _ _ htime _ _ => exact htime

theorem ShownRow.id {records : List Json} {message : RestoredMessage} {row : RestoredRow}
    (h : ShownRow visit records message row) : row.id = message.id := by
  cases h with
  | own _ hrow => exact hrow.id
  | confirmed _ hid _ _ _ => exact hid

theorem confirmRow_eq (records : List Json) (row : RestoredRow) :
    confirmRow rounds visit records row =
      match confirmingRecord records row.id with
      | none => some row
      | some record =>
          (renderSafeMarkdown rounds visit.page
            (redactForBackup (some (.str (Storage.textOf (record.field? "text"))))).toList
            ⟨some visit.participants, false⟩).map fun body =>
              { row with author := visit.labelOf (confirmedRestoredSender (some record))
                         body, authorConfirmed := true } := by
  unfold confirmRow confirmingRecord
  cases usableRecord records row.id with
  | none => rfl
  | some record =>
      by_cases hlabel : confirmedRestoredSender (some record) = restoredSenderLabel
      · have hno : (confirmedRestoredSender (some record) != restoredSenderLabel) = false := by
          rw [hlabel, bne_self_eq_false]
        rw [Option.filter_some, hno, if_neg Bool.false_ne_true]
        simp only [hlabel, if_true]
      · have hyes : (confirmedRestoredSender (some record) != restoredSenderLabel) = true :=
          bne_iff_ne.mpr hlabel
        rw [Option.filter_some, hyes, if_pos rfl]
        simp only [hlabel, if_false]

theorem confirmRow_spec {records : List Json} {message : RestoredMessage}
    {row row' : RestoredRow} (hrow : SeededRow visit message row)
    (h : confirmRow rounds visit records row = some row') :
    ShownRow visit records message row' := by
  rw [confirmRow_eq, hrow.id] at h
  cases hrecord : confirmingRecord records message.id with
  | none =>
      rw [hrecord] at h
      cases h
      exact .own hrecord hrow
  | some record =>
      rw [hrecord] at h
      obtain ⟨body, hbody, rfl⟩ := Option.map_eq_some_iff.mp h
      exact .confirmed hrecord rfl hrow.time ⟨rfl, ⟨rounds, hbody⟩⟩ rfl

theorem confirmRow_id {records : List Json} {row row' : RestoredRow}
    (h : confirmRow rounds visit records row = some row') : row'.id = row.id := by
  rw [confirmRow_eq] at h
  cases hrecord : confirmingRecord records row.id with
  | none =>
      rw [hrecord] at h
      cases h
      rfl
  | some record =>
      rw [hrecord] at h
      obtain ⟨body, -, rfl⟩ := Option.map_eq_some_iff.mp h
      rfl

/-- A row is out of the way of the numbers of others. -/
theorem confirmRows_cons {records : List Json} {ids : List Int} {row : RestoredRow}
    (h : row.id ∉ ids) (rows : List RestoredRow) :
    confirmRows rounds visit records ids (row :: rows) =
      (confirmRows rounds visit records ids rows).map (row :: ·) := by
  induction ids generalizing rows with
  | nil => rfl
  | cons id ids ih =>
      rw [List.mem_cons, not_or] at h
      unfold confirmRows at ih ⊢
      rw [List.foldlM_cons, List.foldlM_cons, updateRow, if_neg h.1]
      cases updateRow id (confirmRow rounds visit records) rows with
      | none => rfl
      | some rows => exact ih h.2 rows

/-- Each row is confirmed on its own. -/
theorem confirmRows_spec {records : List Json} {rows rows' : List RestoredRow}
    (hnodup : (rows.map (·.id)).Nodup)
    (h : confirmRows rounds visit records (rows.map (·.id)) rows = some rows') :
    List.Forall₂ (fun row row' => confirmRow rounds visit records row = some row') rows rows' := by
  induction rows generalizing rows' with
  | nil =>
      cases h
      exact .nil
  | cons row rows ih =>
      obtain ⟨hrow, hnodup⟩ := List.nodup_cons.mp hnodup
      unfold confirmRows at h
      rw [List.map_cons, List.foldlM_cons, updateRow, if_pos rfl] at h
      cases hconfirmed : confirmRow rounds visit records row with
      | none =>
          rw [hconfirmed] at h
          cases h
      | some row' =>
          rw [hconfirmed] at h
          have hrest := @confirmRows_cons rounds visit records (rows.map (·.id)) row'
            (by rwa [confirmRow_id hconfirmed]) rows
          unfold confirmRows at hrest ih
          obtain ⟨later, hlater, hrows'⟩ := Option.map_eq_some_iff.mp (hrest.symm.trans h)
          rw [← hrows']
          exact .cons hconfirmed (ih hnodup hlater)

/-- The records that the rows of a backup are compared with. -/
def Visit.hostRecords (visit : Visit) (stored : Option (List Char)) : List Json :=
  (visit.recordsFor (visit.restoredIds stored)).getD []

theorem Visit.Restores.rows {stored : Option (List Char)} {timeline : Timeline}
    (h : visit.Restores stored timeline) :
    List.Forall₂ (ShownRow visit (visit.hostRecords stored)) (visit.restored stored)
      timeline.rows := by
  obtain ⟨rounds, h⟩ := h
  obtain ⟨seeded, hseed, hconfirm⟩ := Option.bind_eq_some_iff.mp h
  obtain ⟨hids, hrows⟩ := seedEntryFromBackup_spec hseed
  rw [confirmSeededAuthors, hids] at hconfirm
  rw [Visit.hostRecords]
  cases hrecords : visit.recordsFor (visit.restoredIds stored) with
  | none =>
      rw [hrecords] at hconfirm
      cases hconfirm
      exact hrows.imp fun message row hrow => .own rfl hrow
  | some records =>
      rw [hrecords] at hconfirm
      obtain ⟨rows, hupdated, rfl⟩ := Option.map_eq_some_iff.mp hconfirm
      have hnodup : (visit.restoredIds stored).Nodup :=
        (visit.restoredIds_ascending stored).imp fun hlt => ne_of_lt hlt
      have hseeded := seeded_ids hrows
      rw [Visit.restoredIds, ← hseeded] at hupdated hnodup
      have hconfirmed := confirmRows_spec hnodup hupdated
      clear hconfirm hupdated hnodup hseeded hids hseed h
      rw [Option.getD_some]
      generalize visit.restored stored = messages at hrows
      generalize seeded.rows = before at hrows hconfirmed
      induction hrows generalizing rows with
      | nil =>
          cases hconfirmed
          exact .nil
      | cons hrow _ ih =>
          cases hconfirmed with
          | cons hrow' hrows' => exact .cons (confirmRow_spec hrow hrow') (ih _ hrows')

end Spec

/-! ## More rounds -/

section Rounds

variable {visit : Visit} {m n : Nat}

theorem renderMessage_of_le (hle : m ≤ n) (message : RestoredMessage) :
    renderMessage m visit message = .unfinished ∨
      renderMessage n visit message = renderMessage m visit message := by
  unfold renderMessage
  split
  · exact .inr rfl
  · cases hbody : renderSafeMarkdown m visit.page message.text.toList
        ⟨some visit.seedParticipants, false⟩ with
    | none => exact .inl rfl
    | some body =>
        rw [renderSafeMarkdown_of_le hle hbody]
        exact .inr rfl

theorem renderMessages_of_le (hle : m ≤ n) (messages : List RestoredMessage) :
    renderMessages m visit messages = .unfinished ∨
      renderMessages n visit messages = renderMessages m visit messages := by
  induction messages with
  | nil => exact .inr rfl
  | cons message messages ih =>
      rw [renderMessages_cons, renderMessages_cons]
      rcases renderMessage_of_le hle message with hrow | hrow
      · rw [hrow]
        exact .inl rfl
      · rw [hrow]
        cases renderMessage m visit message with
        | done row =>
            rcases ih with hrows | hrows
            · rw [hrows]
              exact .inl rfl
            · rw [hrows]
              exact .inr rfl
        | threw => exact .inr rfl
        | unfinished => exact .inl rfl

theorem seedEntryFromBackup_of_le (hle : m ≤ n) {stored : Option (List Char)}
    {timeline : Timeline} (h : seedEntryFromBackup m visit stored = some timeline) :
    seedEntryFromBackup n visit stored = some timeline := by
  unfold seedEntryFromBackup at h ⊢
  rcases @renderMessages_of_le visit _ _ hle (readBackupForSeed stored) with hrows | hrows
  · simp only [hrows] at h ⊢
    split at h
    · cases h
    · exact h
  · simp only [hrows]
    exact h

theorem confirmRow_of_le (hle : m ≤ n) {records : List Json} {row row' : RestoredRow}
    (h : confirmRow m visit records row = some row') :
    confirmRow n visit records row = some row' := by
  rw [confirmRow_eq] at h ⊢
  cases hrecord : confirmingRecord records row.id with
  | none =>
      rw [hrecord] at h
      exact h
  | some record =>
      rw [hrecord] at h
      obtain ⟨body, hbody, hrow'⟩ := Option.map_eq_some_iff.mp h
      exact Option.map_eq_some_iff.mpr ⟨body, renderSafeMarkdown_of_le hle hbody, hrow'⟩

theorem updateRow_of_imp {id : Int} {update update' : RestoredRow → Option RestoredRow}
    (himp : ∀ row row', update row = some row' → update' row = some row')
    {rows rows' : List RestoredRow} (h : updateRow id update rows = some rows') :
    updateRow id update' rows = some rows' := by
  induction rows generalizing rows' with
  | nil => exact h
  | cons row rows ih =>
      rw [updateRow] at h ⊢
      split at h
      · rename_i hid
        obtain ⟨row', hrow', hrows'⟩ := Option.map_eq_some_iff.mp h
        rw [if_pos hid]
        exact Option.map_eq_some_iff.mpr ⟨row', himp row row' hrow', hrows'⟩
      · rename_i hid
        obtain ⟨later, hlater, hrows'⟩ := Option.map_eq_some_iff.mp h
        rw [if_neg hid]
        exact Option.map_eq_some_iff.mpr ⟨later, ih hlater, hrows'⟩

theorem confirmRows_of_le (hle : m ≤ n) {records : List Json} {ids : List Int}
    {rows rows' : List RestoredRow} (h : confirmRows m visit records ids rows = some rows') :
    confirmRows n visit records ids rows = some rows' := by
  unfold confirmRows at h ⊢
  induction ids generalizing rows with
  | nil =>
      rw [List.foldlM_nil] at h ⊢
      exact h
  | cons id ids ih =>
      rw [List.foldlM_cons] at h ⊢
      obtain ⟨updated, hupdated, hrest⟩ := Option.bind_eq_some_iff.mp h
      have hmore := updateRow_of_imp (fun _ _ => confirmRow_of_le hle) hupdated
      exact Option.bind_eq_some_iff.mpr ⟨updated, hmore, ih hrest⟩

theorem confirmSeededAuthors_of_le (hle : m ≤ n) {timeline timeline' : Timeline}
    (h : confirmSeededAuthors m visit timeline = some timeline') :
    confirmSeededAuthors n visit timeline = some timeline' := by
  unfold confirmSeededAuthors at h ⊢
  cases hrecords : visit.recordsFor timeline.seededIds with
  | none =>
      rw [hrecords] at h
      exact h
  | some records =>
      rw [hrecords] at h
      obtain ⟨rows, hrows, htimeline⟩ := Option.map_eq_some_iff.mp h
      exact Option.map_eq_some_iff.mpr ⟨rows, confirmRows_of_le hle hrows, htimeline⟩

/-- A visit ends with one timeline at most. -/
theorem Visit.Restores.unique {stored : Option (List Char)} {timeline timeline' : Timeline}
    (h : visit.Restores stored timeline) (h' : visit.Restores stored timeline') :
    timeline = timeline' := by
  have hmore {m n : Nat} (hle : m ≤ n) {timeline : Timeline}
      (h : restoreBackup m visit stored = some timeline) :
      restoreBackup n visit stored = some timeline := by
    obtain ⟨seeded, hseed, hconfirm⟩ := Option.bind_eq_some_iff.mp h
    exact Option.bind_eq_some_iff.mpr
      ⟨seeded, seedEntryFromBackup_of_le hle hseed, confirmSeededAuthors_of_le hle hconfirm⟩
  obtain ⟨m, hm⟩ := h
  obtain ⟨n, hn⟩ := h'
  have hm := hmore (Nat.le_max_left m n) hm
  have hn := hmore (Nat.le_max_right m n) hn
  exact Option.some.inj (hm.symm.trans hn)

end Rounds

/-! ## The stored sender -/

/-- The message without its sender. -/
def RestoredMessage.anonymous (message : RestoredMessage) : RestoredMessage :=
  { message with sender := "" }

section Sender

variable {rounds : Nat} {visit : Visit}

theorem renderMessages_anonymous (messages : List RestoredMessage) :
    renderMessages rounds visit (messages.map RestoredMessage.anonymous) =
      renderMessages rounds visit messages := by
  induction messages with
  | nil => rfl
  | cons message messages ih =>
      rw [List.map_cons, renderMessages_cons, renderMessages_cons, ih]
      rfl

/-- What the backup says about the senders has no influence on the timeline. -/
theorem restoreBackup_anonymous {stored other : Option (List Char)}
    (h : (readBackupForSeed stored).map RestoredMessage.anonymous =
      (readBackupForSeed other).map RestoredMessage.anonymous) :
    restoreBackup rounds visit stored = restoreBackup rounds visit other := by
  have hids : (readBackupForSeed stored).map (·.id) = (readBackupForSeed other).map (·.id) := by
    have hanonymous (messages : List RestoredMessage) :
        (messages.map RestoredMessage.anonymous).map (·.id) = messages.map (·.id) :=
      List.map_map
    rw [← hanonymous, h, hanonymous]
  have hrows : renderMessages rounds visit (readBackupForSeed stored) =
      renderMessages rounds visit (readBackupForSeed other) := by
    rw [← renderMessages_anonymous, h, renderMessages_anonymous]
  rw [restoreBackup, restoreBackup, seedEntryFromBackup, seedEntryFromBackup, hids, hrows]

end Sender

end AgentGather.Browser
