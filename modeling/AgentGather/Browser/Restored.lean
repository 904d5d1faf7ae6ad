import AgentGather.Browser.Backup
import AgentGather.Browser.Markdown
import AgentGather.Library.OrderedMap
import Mathlib.Data.List.Sort

/-!
# The rows that the page restores

On entry the room page shows the messages of its own backup before the host has answered.
Once the host has, each row is compared with the host's record of its number, and a row that
the record confirms takes its author and its text from there.
-/

namespace AgentGather.Browser

open AgentGather.Library AgentGather.Library.Dom

/-! ## Reading the backup -/

def restoredSenderLabel : String := "local copy"

/-- Whether a record of this `type` may be shown as an ordinary message. -/
def isRestorableStoredType (type : Option Json) : Bool :=
  match type with
  | some (.str type) => type != "system" && type != "status"
  | _ => true

/-- A message of the backup; it is always shown as one of the type `message`. -/
structure RestoredMessage where
  id : Int
  sender : String
  ts : String
  text : String
deriving DecidableEq, Repr

/-- An entry of the backup, if it is well formed. -/
def readEntry (entry : Json) : Option RestoredMessage :=
  match entry.field? "id", entry.field? "from", entry.field? "text", entry.field? "ts" with
  | some (.num id), some (.str sender), some (.str text), some (.str ts) =>
      if 0 < id && ts != "" && isRestorableStoredType (entry.field? "type") then
        some ⟨id, sender, ts, redactForBackup (some (.str text))⟩
      else none
  | _, _, _, _ => none

/-- The messages of the backup, of several of one number the last, in the order of their
numbers. -/
def readBackupForSeed (stored : Option (List Char)) : List RestoredMessage :=
  match stored.bind Json.parse with
  | none => []
  | some parsed =>
      match parsed.field? "messages" with
      | some (.arr entries) =>
          (OrderedMap.setAll RestoredMessage.id (fun _ message => message) .empty
            (entries.filterMap readEntry)).values.mergeSort
              fun left right => left.id ≤ right.id
      | _ => []

theorem readBackupForSeed_ascending (stored : Option (List Char)) :
    ((readBackupForSeed stored).map (·.id)).Pairwise (· < ·) := by
  unfold readBackupForSeed
  split
  · exact List.Pairwise.nil
  · split
    · rename_i entries _
      have hnames := @OrderedMap.names_setAll _ _ _ _ RestoredMessage.id
        (fun _ message => message) RestoredMessage.id (fun _ _ => rfl) .empty
        (OrderedMap.names_empty _) (entries.filterMap readEntry)
      generalize OrderedMap.setAll RestoredMessage.id (fun _ message => message) .empty
        (entries.filterMap readEntry) = byId at hnames
      have hperm := List.mergeSort_perm byId.values fun left right => decide (left.id ≤ right.id)
      have hnodup : ((byId.values.mergeSort
          fun left right => decide (left.id ≤ right.id)).map (·.id)).Nodup := by
        rw [(hperm.map _).nodup_iff, OrderedMap.map_values hnames]
        exact byId.keys_nodup
      have hsorted := @List.pairwise_mergeSort _ (fun left right : RestoredMessage =>
        decide (left.id ≤ right.id)) (fun a b c hab hbc => by
          simp only [decide_eq_true_eq] at hab hbc ⊢
          exact hab.trans hbc) (fun a b => by
          simpa using le_total a.id b.id) byId.values
      rw [List.pairwise_map]
      refine (hsorted.and (List.pairwise_map.mp hnodup)).imp fun h => ?_
      exact lt_of_le_of_ne (of_decide_eq_true h.1) h.2
    · exact List.Pairwise.nil

/-! ## The rows -/

/-- The `time` element of a row. -/
structure ShownTime where
  dateTime : String
  text : String
deriving DecidableEq, Repr

structure RestoredRow where
  id : Int
  author : String
  time : ShownTime
  body : List Node
  authorConfirmed : Bool

/-- The list item of a row. -/
def RestoredRow.item (row : RestoredRow) : Node :=
  let confirmed :=
    if row.authorConfirmed then [textAttribute "data-author-confirmed" "true"] else []
  let avatar := .element "div" [textAttribute "class" "message-avatar restored"]
    (textNodes "·".toList)
  let sender := .element "div"
    [textAttribute "class" "message-from", textAttribute "data-kind" "restored"]
    (textNodes row.author.toList)
  let time := .element "time"
    [textAttribute "class" "message-time", textAttribute "datetime" row.time.dateTime]
    (textNodes row.time.text.toList)
  .element "li"
    ([textAttribute "class" "message ", textAttribute "data-restored" "true",
      ("data-message-id", .text (Json.printInt row.id)),
      textAttribute "data-sender-kind" "restored"] ++ confirmed)
    [avatar, .element "div" [textAttribute "class" "message-bubble"]
      [.element "div" [textAttribute "class" "message-meta"] [sender, time],
        .element "div" [textAttribute "class" "message-text"] row.body]]

/-- What stands above the restored rows. -/
def restoredDividerText (lowest highest : Int) : List Char :=
  if 1 < lowest then
    "Restored from this device · messages #".toList ++ Json.printInt lowest ++ "–#".toList ++
      Json.printInt highest ++ ". Earlier history isn't saved here and isn't shown.".toList
  else
    "Restored from this device · messages up to #".toList ++ Json.printInt highest ++ ['.']

def buildRestoredDivider (lowest highest : Int) : Node :=
  .element "li"
    [textAttribute "class" "message system restored-divider", textAttribute "data-restored" "true"]
    [.element "div" [textAttribute "class" "system-pill"]
      [.element "span" [textAttribute "class" "message-text"]
        (textNodes (restoredDividerText lowest highest))]]

/-- The restored part of the timeline, and the numbers that are to be confirmed. -/
structure Timeline where
  divider : Option (Int × Int)
  rows : List RestoredRow
  seededIds : List Int

def Timeline.empty : Timeline := ⟨none, [], []⟩

def Timeline.tree (timeline : Timeline) : List Node :=
  (timeline.divider.map fun range => buildRestoredDivider range.1 range.2).toList ++
    timeline.rows.map RestoredRow.item

/-! ## Seeding -/

/-- What the page has from elsewhere: the browser's own functions, what the roster says when
the rows are restored and when they are confirmed, and how the host answers
`/messages?since_id=…&limit=…`, if it does. -/
structure Visit where
  page : Page
  formatTime : String → Option String
  seedParticipants : List (List Char)
  participants : List (List Char)
  participantLabels : OrderedMap String String
  messages : Int → Int → Option Json

/-- How a piece of the page's code ends: with a result, with an exception, or not in so many
rounds of the renderer. -/
inductive Ending (α : Type) where
  | done (value : α)
  | threw
  | unfinished

def Ending.bind {α β : Type} (ending : Ending α) (next : α → Ending β) : Ending β :=
  match ending with
  | .done value => next value
  | .threw => .threw
  | .unfinished => .unfinished

section Entry

variable (rounds : Nat) (visit : Visit)

/-- The row of a restored message.  Its sender is not read, and a date that is not one throws. -/
def renderMessage (message : RestoredMessage) : Ending RestoredRow :=
  match visit.formatTime message.ts with
  | none => .threw
  | some clock =>
      match renderSafeMarkdown rounds visit.page message.text.toList
          ⟨some visit.seedParticipants, false⟩ with
      | none => .unfinished
      | some body => .done ⟨message.id, restoredSenderLabel, ⟨message.ts, clock⟩, body, false⟩

def renderMessages : List RestoredMessage → Ending (List RestoredRow)
  | [] => .done []
  | message :: messages =>
      (renderMessage rounds visit message).bind fun row =>
        (renderMessages messages).bind fun rows => .done (row :: rows)

/-- The messages of the backup are shown; an exception drops all of them. -/
def seedEntryFromBackup (stored : Option (List Char)) : Option Timeline :=
  let restored := readBackupForSeed stored
  let ids := restored.map (·.id)
  match ids.head?, ids.getLast? with
  | some lowest, some highest =>
      match renderMessages rounds visit restored with
      | .done rows => some ⟨some (lowest, highest), rows, ids⟩
      | .threw => some .empty
      | .unfinished => none
  | _, _ => some .empty

/-! ## Confirming -/

/-- The author that a record of the host confirms, or the label. -/
def confirmedRestoredSender (hostRecord : Option Json) : String :=
  match hostRecord.bind (Json.field? "from") with
  | some (.str sender) => if sender = "" then restoredSenderLabel else sender
  | _ => restoredSenderLabel

/-- The records of an answer.  Without an answer, and where one of them has no members to ask
for, the page stops. -/
def answeredRecords (payload : Option Json) : Option (List Json) :=
  match payload with
  | none => none
  | some .null => none
  | some payload =>
      match payload.field? "messages" with
      | some (.arr records) =>
          if records.any fun record => record matches .null then none else some records
      | _ => some []

def hasId (id : Int) (record : Json) : Bool :=
  match record.field? "id" with
  | some (.num n) => n == id
  | _ => false

/-- The last record of the number, if it may be shown as a restored message. -/
def usableRecord (records : List Json) (id : Int) : Option Json :=
  (records.reverse.find? (hasId id)).filter fun record =>
    isRestorableStoredType (record.field? "type")

/-- The name of a sender in the roster. -/
def Visit.labelOf (sender : String) : String :=
  match visit.participantLabels.get? sender with
  | some label => if label = "" then sender else label
  | none => sender

/-- A row takes its author and its text from the record; its time stays. -/
def confirmRow (records : List Json) (row : RestoredRow) : Option RestoredRow :=
  match usableRecord records row.id with
  | none => some row
  | some record =>
      let sender := confirmedRestoredSender (some record)
      if sender = restoredSenderLabel then some row
      else
        (renderSafeMarkdown rounds visit.page
          (redactForBackup (some (.str (Storage.textOf (record.field? "text"))))).toList
          ⟨some visit.participants, false⟩).map fun body =>
            { row with author := visit.labelOf sender, body, authorConfirmed := true }

/-- The first row of the number is replaced, if there is one. -/
def updateRow (id : Int) (update : RestoredRow → Option RestoredRow) :
    List RestoredRow → Option (List RestoredRow)
  | [] => some []
  | row :: rows =>
      if row.id = id then (update row).map (· :: rows)
      else (updateRow id update rows).map (row :: ·)

def confirmRows (records : List Json) (ids : List Int) (rows : List RestoredRow) :
    Option (List RestoredRow) :=
  ids.foldlM (fun rows id => updateRow id (confirmRow rounds visit records) rows) rows

/-- The records that the host answers for the numbers between the first and the last. -/
def Visit.recordsFor (ids : List Int) : Option (List Json) :=
  match ids.head?, ids.getLast? with
  | some lowest, some highest =>
      answeredRecords (visit.messages (max 0 (lowest - 1)) (highest - lowest + 1))
  | _, _ => none

def confirmSeededAuthors (timeline : Timeline) : Option Timeline :=
  match visit.recordsFor timeline.seededIds with
  | none => some timeline
  | some records =>
      (confirmRows rounds visit records timeline.seededIds timeline.rows).map fun rows =>
        { timeline with rows }

/-- The backup is restored, and then its rows are confirmed. -/
def restoreBackup (stored : Option (List Char)) : Option Timeline :=
  (seedEntryFromBackup rounds visit stored).bind (confirmSeededAuthors rounds visit)

end Entry

/-- The page restores the backup and ends with this timeline. -/
def Visit.Restores (visit : Visit) (stored : Option (List Char)) (timeline : Timeline) : Prop :=
  ∃ rounds, restoreBackup rounds visit stored = some timeline

end AgentGather.Browser
